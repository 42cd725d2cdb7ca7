import LocalMeetingStt.Lib.SelfSync

/-!
# `suppress_plain_overlap` (`stream-loopback.cpp`)

A step hears the end of the last one again, so the text it makes may begin with the end of
the last text. The code looks for that byte by byte in UTF-8, counting a `size_t` down, and
cuts what it finds.

`Suppressed` says what the result is in characters, and it is what the code answers: an
overlap begins where a text begins, so it begins and ends between characters, and the
blanks trimmed off the rest are characters of one byte.
-/

namespace LocalMeetingStt
namespace Loopback

open SelfSync

/-- `std::string::npos`, the largest `size_t`. -/
def npos : Nat := 18446744073709551615

def findFirstNotOf (text ws : List UInt8) : Option Nat := text.findIdx? fun x => !ws.contains x

def findLastNotOf (text ws : List UInt8) : Option Nat :=
  (text.reverse.findIdx? fun x => !ws.contains x).map (text.length - 1 - ·)

/-- `" \t\r\n"` -/
def blanks : List Char := [' ', '\t', '\r', '\n']

def trimAscii (text : List UInt8) : List UInt8 :=
  let ws := utf8.units blanks
  match findFirstNotOf text ws with
  | none => []
  | some first =>
    let last := (findLastNotOf text ws).getD npos
    (text.drop first).take (last - first + 1)

/-- `text.find(needle)` -/
def find : List UInt8 → List UInt8 → Option Nat
  | [], needle => if needle.isEmpty then some 0 else none
  | x :: text, needle =>
    if needle.isPrefixOf (x :: text) then some 0 else (find text needle).map (· + 1)

/-- `--n` on a `size_t`. -/
def decrement (n : Nat) : Nat := if n = 0 then npos else n - 1

/-- The loop: where it stopped, if it did before the end, and the values it counted down
    from. Out of fuel it has not returned. -/
def countdown (overlaps : Nat → Bool) (minOverlap : Nat) :
    Nat → Nat → Option (Option Nat × List Nat)
  | 0, _ => none
  | fuel + 1, n =>
    if minOverlap ≤ n then
      if overlaps n then some (some n, [])
      else if n = minOverlap then some (none, [])
      else (countdown overlaps minOverlap fuel (decrement n)).map fun (found, counted) =>
        (found, n :: counted)
    else some (none, [])

/-- `previous.compare(previous.size() - n, n, text, 0, n) == 0` -/
def overlaps (text previous : List UInt8) (n : Nat) : Bool :=
  (previous.drop (previous.length - n)).take n == text.take n

/-- The result, and the values its loop counted down from. -/
def suppressPlainOverlap (text previous : List UInt8) : Option (List UInt8 × List Nat) :=
  if text.isEmpty || previous.isEmpty then some (text, [])
  else if text == previous || (find previous text).isSome then some ([], [])
  else if find text previous == some 0 then some (trimAscii (text.drop previous.length), [])
  else
    let minOverlap := 12
    let maxOverlap := min previous.length text.length
    (countdown (overlaps text previous) minOverlap (maxOverlap + 1) maxOverlap).map fun
      | (some n, counted) => (trimAscii (text.drop n), counted)
      | (none, counted) => (text, counted)

/-! ## What it is for -/

def trim (text : List Char) : List Char :=
  (text.dropWhile (· ∈ blanks)).rdropWhile (· ∈ blanks)

/-- The last `n` bytes of `previous` are the first `n` of `text`. -/
def Overlap (text previous : List UInt8) (n : Nat) : Prop :=
  n ≤ text.length ∧ text.take n <:+ previous

/-- What is left of a text after the one before it. -/
inductive Suppressed (text previous : List Char) : List Char → Prop
  | empty : text = [] ∨ previous = [] → Suppressed text previous text
  | again : text ≠ [] → previous ≠ [] → text <:+: previous → Suppressed text previous []
  | more {rest : List Char} : previous ≠ [] → ¬text <:+: previous → text = previous ++ rest →
      Suppressed text previous (trim rest)
  | overlap {common rest : List Char} : previous ≠ [] → ¬text <:+: previous →
      ¬previous <+: text → text = common ++ rest → 12 ≤ (utf8.units common).length →
      Overlap (utf8.units text) (utf8.units previous) (utf8.units common).length →
      (∀ n, Overlap (utf8.units text) (utf8.units previous) n →
        n ≤ (utf8.units common).length) →
      Suppressed text previous (trim rest)
  | apart : previous ≠ [] → ¬text <:+: previous → ¬previous <+: text →
      (∀ n, Overlap (utf8.units text) (utf8.units previous) n → n < 12) →
      Suppressed text previous text

/-! ## Trimming -/

theorem rdropWhile_eq_take (p : UInt8 → Bool) (text : List UInt8) :
    text.rdropWhile p = text.take (text.length - text.reverse.findIdx fun x => !p x) := by
  rw [List.rdropWhile, List.dropWhile_eq_drop_findIdx_not, List.reverse_drop, List.reverse_reverse,
    List.length_reverse]

theorem trimAscii_eq (text : List UInt8) :
    trimAscii text = (text.dropWhile ((utf8.units blanks).contains ·)).rdropWhile
      ((utf8.units blanks).contains ·) := by
  unfold trimAscii findFirstNotOf findLastNotOf
  generalize utf8.units blanks = ws
  dsimp only
  cases hfirst : text.findIdx? fun x => !ws.contains x with
  | none =>
    have hall := List.findIdx?_eq_none_iff.mp hfirst
    have hnil : text.dropWhile (ws.contains ·) = [] :=
      List.dropWhile_eq_nil_iff.mpr fun x hx => by simpa using hall x hx
    rw [hnil]
    rfl
  | some first =>
    obtain ⟨hlt, hidx⟩ := List.findIdx?_eq_some_iff_findIdx_eq.mp hfirst
    have hdrop : text.dropWhile (ws.contains ·) = text.drop first := by
      rw [List.dropWhile_eq_drop_findIdx_not, hidx]
    -- the first that is not blank stands before the last, or is it
    have hkept : (!ws.contains text[first]) = true := by
      subst hidx
      exact List.findIdx_getElem (w := hlt)
    have hmem : text[first] ∈ (text.drop first).reverse := by
      rw [List.mem_reverse, List.drop_eq_getElem_cons hlt]
      exact List.mem_cons_self
    have hback := List.findIdx_lt_length_of_exists (p := fun x => !ws.contains x) ⟨_, hmem, hkept⟩
    have hrev : (text.drop first).reverse = text.reverse.take (text.length - first) := by
      rw [List.reverse_drop]
    have hsome := List.findIdx?_eq_some_of_exists (p := fun x => !ws.contains x)
      ⟨_, List.mem_reverse.mpr (List.getElem_mem hlt), hkept⟩
    rw [hrev, List.findIdx_take, List.length_take, List.length_reverse] at hback
    rw [hsome, hdrop, rdropWhile_eq_take, hrev, List.findIdx_take, List.length_drop]
    simp only [Option.map_some, Option.getD_some]
    congr 1
    omega

theorem blanks_alone {x : UInt8} (hx : (utf8.units blanks).contains x = true) : utf8.Alone x := by
  have hall : ((utf8.units blanks).all fun y => y &&& 0x80 == 0) = true := rfl
  exact utf8_alone (beq_iff_eq.mp (List.all_eq_true.mp hall x (List.contains_iff_mem.mp hx)))

/-- The characters trimmed are the blanks. -/
theorem all_blank_iff (k : Char) :
    (utf8.encode k).all ((utf8.units blanks).contains ·) = decide (k ∈ blanks) := by
  rw [Bool.eq_iff_iff, decide_eq_true_iff]
  constructor
  · intro hall
    obtain ⟨x, rest, heq, -⟩ := utf8_head k
    have hencode : utf8.encode k = x :: rest := heq
    have hx := List.all_eq_true.mp hall x (by rw [hencode]; exact List.mem_cons_self)
    have hk := blanks_alone hx k (by rw [hencode]; exact List.mem_cons_self)
    obtain ⟨b, hb, hmem⟩ := List.mem_flatMap.mp (List.contains_iff_mem.mp hx)
    have hb' := blanks_alone hx b hmem
    have hsame : k = b := utf8.unique (congrArg (· ++ []) (hk.trans hb'.symm))
    exact hsame ▸ hb
  · have hblank : (blanks.all fun b =>
        (utf8.encode b).all ((utf8.units blanks).contains ·)) = true := rfl
    exact List.all_eq_true.mp hblank k

/-- Trimming bytes is trimming characters. -/
theorem trimAscii_units (text : List Char) :
    trimAscii (utf8.units text) = utf8.units (trim text) := by
  have hblank : ∀ x, (utf8.units blanks).contains x = true → utf8.Alone x :=
    fun _ => blanks_alone
  rw [trimAscii_eq, Code.dropWhile_units hblank, Code.rdropWhile_units hblank]
  simp only [all_blank_iff]
  rfl

/-! ## Finding -/

theorem find_isSome (text needle : List UInt8) :
    (find text needle).isSome = true ↔ needle <:+: text := by
  induction text with
  | nil =>
    cases needle <;> simp [find]
  | cons x text ih =>
    rw [List.infix_cons_iff, ← ih, find]
    by_cases hprefix : needle <+: x :: text
    · simp [List.isPrefixOf_iff_prefix.mpr hprefix, hprefix]
    · have hnot : needle.isPrefixOf (x :: text) = false :=
        (Bool.not_eq_true _).mp (mt List.isPrefixOf_iff_prefix.mp hprefix)
      simp [hnot, hprefix]

theorem find_eq_zero (text needle : List UInt8) :
    find text needle = some 0 ↔ needle <+: text := by
  cases text with
  | nil =>
    cases needle <;> simp [find]
  | cons x text =>
    rw [find]
    split_ifs with hprefix
    · exact iff_of_true rfl (List.isPrefixOf_iff_prefix.mp hprefix)
    · refine iff_of_false (fun h => ?_) (mt List.isPrefixOf_iff_prefix.mpr hprefix)
      obtain ⟨n, -, hn⟩ := Option.map_eq_some_iff.mp h
      exact Nat.succ_ne_zero n hn

/-! ## The countdown -/

/-- The longest overlap between two bounds, if there is one. -/
def Longest (overlaps : Nat → Bool) (minOverlap n : Nat) : Option Nat → Prop
  | some m => minOverlap ≤ m ∧ m ≤ n ∧ overlaps m = true ∧
      ∀ k, m < k → k ≤ n → overlaps k = false
  | none => ∀ k, minOverlap ≤ k → k ≤ n → overlaps k = false

/-- **The countdown stops above zero**, at the longest overlap if there is one. -/
theorem countdown_longest (overlaps : Nat → Bool) {minOverlap : Nat} (hmin : 0 < minOverlap)
    {fuel n : Nat} (hfuel : n < fuel) :
    ∃ found counted, countdown overlaps minOverlap fuel n = some (found, counted) ∧
      Longest overlaps minOverlap n found ∧ ∀ k ∈ counted, 0 < k := by
  induction fuel generalizing n with
  | zero => exact absurd hfuel (Nat.not_lt_zero _)
  | succ fuel ih =>
    rw [countdown]
    by_cases hle : minOverlap ≤ n
    · rw [if_pos hle]
      cases hn : overlaps n with
      | true =>
        exact ⟨some n, [], rfl, ⟨hle, Nat.le_refl n, hn, fun k _ _ => by omega⟩,
          fun _ hk => absurd hk List.not_mem_nil⟩
      | false =>
        rw [if_neg Bool.false_ne_true]
        by_cases heq : n = minOverlap
        · rw [if_pos heq]
          refine ⟨none, [], rfl, fun k hk hkn => ?_, fun _ hk => absurd hk List.not_mem_nil⟩
          obtain rfl : k = n := by omega
          exact hn
        · have hdec : decrement n = n - 1 := if_neg (by omega)
          obtain ⟨found, counted, hloop, hlongest, hcounted⟩ := ih (n := n - 1) (by omega)
          rw [if_neg heq, hdec, hloop]
          refine ⟨found, n :: counted, rfl, ?_, fun k hk => ?_⟩
          · -- what is no overlap at `n` can be added to what is known below it
            cases found with
            | none =>
              intro k hk hkn
              obtain rfl | hlt : k = n ∨ k ≤ n - 1 := by omega
              · exact hn
              · exact hlongest k hk hlt
            | some m =>
              obtain ⟨hminm, hmn, hm, habove⟩ := hlongest
              refine ⟨hminm, by omega, hm, fun k hk hkn => ?_⟩
              obtain rfl | hlt : k = n ∨ k ≤ n - 1 := by omega
              · exact hn
              · exact habove k hk hlt
          · obtain rfl | hk := List.mem_cons.mp hk
            · omega
            · exact hcounted k hk
    · rw [if_neg hle]
      exact ⟨none, [], rfl, fun k _ _ => by omega, fun _ hk => absurd hk List.not_mem_nil⟩

theorem overlaps_iff {text previous : List UInt8} {n : Nat} (htext : n ≤ text.length)
    (hprevious : n ≤ previous.length) :
    overlaps text previous n = true ↔ Overlap text previous n := by
  have hlen : (text.take n).length = n := List.length_take_of_le htext
  have htail : (previous.drop (previous.length - n)).take n = previous.drop (previous.length - n) :=
    List.take_of_length_le (by rw [List.length_drop]; omega)
  rw [overlaps, htail, beq_iff_eq, Overlap, List.suffix_iff_eq_drop, hlen]
  exact ⟨fun h => ⟨htext, h.symm⟩, fun h => h.2.symm⟩

theorem Overlap.le {text previous : List UInt8} {n : Nat} (h : Overlap text previous n) :
    n ≤ min previous.length text.length := by
  have hlen := h.2.length_le
  rw [List.length_take_of_le h.1] at hlen
  exact Nat.le_min.mpr ⟨hlen, h.1⟩

/-- What the loop finds: the longest overlap of twelve bytes or more. -/
theorem countdown_overlaps (text previous : List UInt8) :
    ∃ found counted, countdown (overlaps text previous) 12 (min previous.length text.length + 1)
        (min previous.length text.length) = some (found, counted) ∧
      (match found with
        | some n => 12 ≤ n ∧ Overlap text previous n ∧ ∀ m, Overlap text previous m → m ≤ n
        | none => ∀ n, Overlap text previous n → n < 12) ∧
      ∀ n ∈ counted, 0 < n := by
  -- nothing above the bound the loop starts from is an overlap
  have hbelow : ∀ n, Overlap text previous n →
      n ≤ min previous.length text.length ∧ overlaps text previous n = true := fun n hn =>
    ⟨hn.le, (overlaps_iff (Nat.le_min.mp hn.le).2 (Nat.le_min.mp hn.le).1).mpr hn⟩
  obtain ⟨found, counted, hloop, hlongest, hcounted⟩ := countdown_longest (overlaps text previous)
    (by decide : 0 < 12) (Nat.lt_succ_self (min previous.length text.length))
  refine ⟨found, counted, hloop, ?_, hcounted⟩
  cases found with
  | none =>
    intro n hn
    by_contra hlt
    obtain ⟨hle, htrue⟩ := hbelow n hn
    exact Bool.false_ne_true ((hlongest n (Nat.not_lt.mp hlt) hle).symm.trans htrue)
  | some n =>
    obtain ⟨hmin, hmax, hoverlaps, hlonger⟩ := hlongest
    obtain ⟨hprevious, htext⟩ := Nat.le_min.mp hmax
    refine ⟨hmin, (overlaps_iff htext hprevious).mp hoverlaps, fun m hm => ?_⟩
    by_contra hlt
    obtain ⟨hle, htrue⟩ := hbelow m hm
    exact Bool.false_ne_true ((hlonger m (Nat.not_le.mp hlt) hle).symm.trans htrue)

/-- An overlap begins and ends between characters. -/
theorem Overlap.whole {text previous : List Char} {n : Nat} (hn : 0 < n)
    (h : Overlap (utf8.units text) (utf8.units previous) n) :
    ∃ common rest, text = common ++ rest ∧ (utf8.units common).length = n ∧
      (utf8.units text).drop n = utf8.units rest := by
  obtain ⟨hle, front, hfront⟩ := h
  have hlen : ((utf8.units text).take n).length = n := List.length_take_of_le hle
  have hne : (utf8.units text).take n ≠ [] := by
    intro hnil
    rw [hnil] at hlen
    exact absurd hlen (Nat.ne_of_lt hn)
  obtain ⟨common, rest, heq, hcommon, hrest⟩ :=
    Code.overlap hne hfront.symm (List.take_append_drop n _).symm
  exact ⟨common, rest, heq, by rw [hcommon, hlen], hrest.symm⟩

/-- **What the listener is not told twice.** On texts in UTF-8 the code always answers, its
    answer is in UTF-8 and is `Suppressed`, and its countdown never leaves zero behind. -/
theorem suppressPlainOverlap_suppressed (text previous : List Char) :
    ∃ result counted,
      suppressPlainOverlap (utf8.units text) (utf8.units previous) =
        some (utf8.units result, counted) ∧
      Suppressed text previous result ∧ ∀ n ∈ counted, 0 < n := by
  have hnone : ∀ n ∈ ([] : List Nat), 0 < n := fun _ hn => absurd hn List.not_mem_nil
  unfold suppressPlainOverlap
  by_cases hempty : text = [] ∨ previous = []
  · have hcond : ((utf8.units text).isEmpty || (utf8.units previous).isEmpty) = true := by
      simpa [Code.units_eq_nil] using hempty
    rw [if_pos hcond]
    exact ⟨text, [], rfl, .empty hempty, hnone⟩
  obtain ⟨htext, hprevious⟩ := not_or.mp hempty
  have hcond : ¬((utf8.units text).isEmpty || (utf8.units previous).isEmpty) = true := by
    simpa [Code.units_eq_nil] using hempty
  rw [if_neg hcond]
  by_cases hagain : text <:+: previous
  · have hfind := (find_isSome _ _).mpr (Code.units_infix (c := utf8) |>.mpr hagain)
    rw [if_pos (by rw [hfind, Bool.or_true])]
    exact ⟨[], [], rfl, .again htext hprevious hagain, hnone⟩
  have hfind : ¬(find (utf8.units previous) (utf8.units text)).isSome = true :=
    mt (fun h => Code.units_infix.mp ((find_isSome _ _).mp h)) hagain
  have hne : ¬(utf8.units text == utf8.units previous) = true := by
    intro h
    have hsame : utf8.units text <:+: utf8.units previous :=
      Eq.subst (motive := fun l => utf8.units text <:+: l) (beq_iff_eq.mp h) (List.infix_refl _)
    exact hagain (Code.units_infix.mp hsame)
  rw [if_neg (by simp [hfind, hne])]
  by_cases hmore : previous <+: text
  · have hzero := (find_eq_zero _ _).mpr (Code.units_prefix (c := utf8) |>.mpr hmore)
    obtain ⟨rest, rfl⟩ := hmore
    rw [if_pos (by rw [hzero]; rfl), Code.units_append, List.drop_left, trimAscii_units]
    exact ⟨trim rest, [], rfl, .more hprevious hagain rfl, hnone⟩
  have hzero : ¬(find (utf8.units text) (utf8.units previous) == some 0) = true :=
    mt (fun h => Code.units_prefix.mp ((find_eq_zero _ _).mp (beq_iff_eq.mp h))) hmore
  rw [if_neg hzero]
  obtain ⟨found, counted, hloop, hlongest, hcounted⟩ :=
    countdown_overlaps (utf8.units text) (utf8.units previous)
  dsimp only
  rw [hloop]
  cases found with
  | none => exact ⟨text, counted, rfl, .apart hprevious hagain hmore hlongest, hcounted⟩
  | some n =>
    obtain ⟨hmin, hoverlap, hlongest⟩ := hlongest
    obtain ⟨common, rest, heq, rfl, hrest⟩ := hoverlap.whole (by omega)
    refine ⟨trim rest, counted, ?_,
      .overlap hprevious hagain hmore heq hmin hoverlap hlongest, hcounted⟩
    rw [← trimAscii_units, ← hrest]
    rfl

end Loopback
end LocalMeetingStt
