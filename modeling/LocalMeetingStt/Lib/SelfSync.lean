import Mathlib.Data.List.DropRight

/-!
# Self-synchronizing codes

A text is written in units, a few for each character, and the first unit of a character
occurs nowhere else in one. UTF-8 is such a code: its first bytes are never continuation
bytes. Then a place in a text where such a unit stands is a place between characters
(`Code.split`), and a piece that ends one text and begins another has no half characters
at either end (`Code.overlap`), though it was found by comparing units.
-/

namespace SelfSync

variable {κ β : Type*}

structure Code (κ β : Type*) where
  encode : κ → List β
  /-- The units a character begins with. -/
  lead : β → Prop
  head : ∀ k, ∃ first rest, encode k = first :: rest ∧ lead first ∧ ∀ x ∈ rest, ¬lead x
  unique : ∀ {k k' : κ} {xs ys : List β}, encode k ++ xs = encode k' ++ ys → k = k'

namespace Code

variable (c : Code κ β)

/-- The units of a text. -/
def units (text : List κ) : List β := text.flatMap c.encode

@[simp] theorem units_nil : c.units [] = [] := rfl

@[simp] theorem units_cons (k : κ) (text : List κ) :
    c.units (k :: text) = c.encode k ++ c.units text := List.flatMap_cons

@[simp] theorem units_append (text text' : List κ) :
    c.units (text ++ text') = c.units text ++ c.units text' := List.flatMap_append

/-- A character, or nothing, begins here. -/
def Begins (units : List β) : Prop := ∀ x ∈ units.head?, c.lead x

variable {c}

theorem encode_ne_nil (k : κ) : c.encode k ≠ [] := by
  obtain ⟨first, rest, heq, -⟩ := c.head k
  rw [heq]
  exact List.cons_ne_nil _ _

theorem units_eq_nil {text : List κ} : c.units text = [] ↔ text = [] := by
  cases text with
  | nil => exact iff_of_true rfl rfl
  | cons k text => simp [encode_ne_nil]

/-- A text begins with a character. -/
theorem begins_units_append {text : List κ} (htext : text ≠ []) (rest : List β) :
    c.Begins (c.units text ++ rest) := by
  obtain ⟨k, text, rfl⟩ := List.exists_cons_of_ne_nil htext
  obtain ⟨first, rest', heq, hlead, -⟩ := c.head k
  rw [units_cons, heq]
  intro x hx
  obtain rfl : first = x := Option.some.inj hx
  exact hlead

/-- Inside a character no other begins. -/
theorem not_begins {k : κ} {front back : List β} (heq : c.encode k = front ++ back)
    (hfront : front ≠ []) (hback : back ≠ []) : ¬c.Begins back := by
  obtain ⟨first, rest, hk, -, hrest⟩ := c.head k
  obtain ⟨x, front, rfl⟩ := List.exists_cons_of_ne_nil hfront
  obtain ⟨y, back, rfl⟩ := List.exists_cons_of_ne_nil hback
  rw [hk, List.cons_append, List.cons.injEq] at heq
  intro hbegins
  exact hrest y (heq.2 ▸ by simp) (hbegins y rfl)

/-- **A place where a character begins cuts a text into two.** -/
theorem split {text : List κ} {front back : List β} (heq : c.units text = front ++ back)
    (hback : c.Begins back) :
    ∃ text₁ text₂, text = text₁ ++ text₂ ∧ c.units text₁ = front ∧ c.units text₂ = back := by
  induction text generalizing front with
  | nil =>
    obtain ⟨rfl, rfl⟩ := List.append_eq_nil_iff.mp heq.symm
    exact ⟨[], [], rfl, rfl, rfl⟩
  | cons k text ih =>
    by_cases hfront : front = []
    · subst hfront
      exact ⟨[], k :: text, rfl, rfl, heq⟩
    rw [units_cons] at heq
    obtain ⟨more, hfronteq, hresteq⟩ | ⟨more, hkeq, hbackeq⟩ := List.append_eq_append_iff.mp heq
    · obtain ⟨text₁, text₂, rfl, hfirst, hsecond⟩ := ih hresteq
      exact ⟨k :: text₁, text₂, rfl, by rw [units_cons, hfirst, hfronteq], hsecond⟩
    · -- the cut is inside the first character, or right behind it
      by_cases hmore : more = []
      · subst hmore
        exact ⟨[k], text, rfl, by simpa using hkeq, by simpa using hbackeq.symm⟩
      · refine absurd ?_ (not_begins hkeq hfront hmore)
        obtain ⟨y, more, rfl⟩ := List.exists_cons_of_ne_nil hmore
        exact fun x hx => hback x (by rw [hbackeq]; exact hx)

/-- What follows a text in a text is one. -/
theorem prefix_cut {text text' : List κ} {back : List β}
    (heq : c.units text = c.units text' ++ back) :
    ∃ rest, text = text' ++ rest ∧ c.units rest = back := by
  induction text' generalizing text with
  | nil => exact ⟨text, rfl, heq⟩
  | cons k' text' ih =>
    cases text with
    | nil =>
      rw [units_cons, List.append_assoc] at heq
      exact absurd (List.append_eq_nil_iff.mp heq.symm).1 (encode_ne_nil k')
    | cons k text =>
      rw [units_cons, units_cons, List.append_assoc] at heq
      obtain rfl := c.unique heq
      obtain ⟨rest, rfl, hrest⟩ := ih (List.append_cancel_left heq)
      exact ⟨rest, rfl, hrest⟩

theorem units_prefix {text text' : List κ} : c.units text' <+: c.units text ↔ text' <+: text := by
  constructor
  · rintro ⟨back, heq⟩
    obtain ⟨rest, rfl, -⟩ := prefix_cut heq.symm
    exact List.prefix_append _ _
  · rintro ⟨rest, rfl⟩
    exact ⟨c.units rest, (units_append c _ _).symm⟩

/-- A text found among the units of another stands between its characters. -/
theorem units_infix {text text' : List κ} :
    c.units text' <:+: c.units text ↔ text' <:+: text := by
  constructor
  · rintro ⟨front, back, heq⟩
    by_cases hnil : text' = []
    · subst hnil
      exact List.nil_infix
    obtain ⟨text₁, text₂, rfl, -, hsecond⟩ :=
      split (heq.symm.trans (List.append_assoc ..)) (begins_units_append hnil back)
    obtain ⟨rest, rfl, -⟩ := prefix_cut hsecond
    exact ⟨text₁, rest, List.append_assoc ..⟩
  · rintro ⟨text₁, text₂, rfl⟩
    exact ⟨c.units text₁, c.units text₂, by simp⟩

/-- **The end of one text that is the beginning of another** is a text, and so is what
    follows it. -/
theorem overlap {text text' : List κ} {front common back : List β}
    (hcommon : common ≠ []) (hend : c.units text' = front ++ common)
    (hstart : c.units text = common ++ back) :
    ∃ text₁ text₂, text = text₁ ++ text₂ ∧ c.units text₁ = common ∧ c.units text₂ = back := by
  have hbegins : c.Begins common := by
    have htext : text ≠ [] := by
      rintro rfl
      exact hcommon (List.append_eq_nil_iff.mp hstart.symm).1
    have hunits := begins_units_append (c := c) htext []
    rw [List.append_nil, hstart] at hunits
    obtain ⟨y, common, rfl⟩ := List.exists_cons_of_ne_nil hcommon
    exact hunits
  obtain ⟨-, both, -, -, hboth⟩ := split hend hbegins
  rw [← hboth] at hstart
  obtain ⟨rest, rfl, hrest⟩ := prefix_cut hstart
  exact ⟨both, rest, rfl, hboth, hrest⟩

/-! ## Characters of one unit -/

/-- A unit that stands for a character by itself and occurs in no other. -/
def Alone (c : Code κ β) (x : β) : Prop := ∀ k, x ∈ c.encode k → c.encode k = [x]

variable {blank : β → Bool}

/-- A character made of a unit that is dropped, or of units that all stay. -/
theorem alone_or (hblank : ∀ x, blank x = true → c.Alone x) (k : κ) :
    (∃ x, c.encode k = [x] ∧ blank x = true) ∨ ∀ x ∈ c.encode k, blank x = false := by
  by_cases h : ∃ x ∈ c.encode k, blank x = true
  · obtain ⟨x, hmem, hx⟩ := h
    exact .inl ⟨x, hblank x hx k hmem, hx⟩
  · exact .inr fun x hmem => by simpa using fun hx => h ⟨x, hmem, hx⟩

/-- Dropping such units in front of a text is dropping characters. -/
theorem dropWhile_units (hblank : ∀ x, blank x = true → c.Alone x) (text : List κ) :
    (c.units text).dropWhile blank =
      c.units (text.dropWhile fun k => (c.encode k).all blank) := by
  induction text with
  | nil => rfl
  | cons k text ih =>
    obtain ⟨x, hk, hx⟩ | hk := alone_or hblank k
    · simpa [hk, hx] using ih
    · obtain ⟨first, rest, heq, -⟩ := c.head k
      have hfirst : blank first = false := hk first (by rw [heq]; exact List.mem_cons_self)
      simp [heq, hfirst]

/-- And behind it. -/
theorem rdropWhile_units (hblank : ∀ x, blank x = true → c.Alone x) (text : List κ) :
    (c.units text).rdropWhile blank =
      c.units (text.rdropWhile fun k => (c.encode k).all blank) := by
  induction text using List.reverseRecOn with
  | nil => rfl
  | append_singleton text k ih =>
    have hunits : c.units (text ++ [k]) = c.units text ++ c.encode k := by simp
    rw [hunits]
    obtain ⟨x, hk, hx⟩ | hk := alone_or hblank k
    · rw [hk, List.rdropWhile_concat_pos _ _ _ hx,
        List.rdropWhile_concat_pos _ _ _ (by simp [hk, hx]), ih]
    · obtain ⟨units, last, heq⟩ :=
        (List.eq_nil_or_concat' (c.encode k)).resolve_left (encode_ne_nil k)
      have hlast : ¬blank last = true := by
        simp [hk last (by rw [heq]; simp)]
      have hall : ¬((c.encode k).all blank) = true := by
        intro hall
        exact hlast (List.all_eq_true.mp hall last (by rw [heq]; simp))
      have hkept : (text ++ [k]).rdropWhile (fun k => (c.encode k).all blank) = text ++ [k] :=
        List.rdropWhile_concat_neg _ _ _ hall
      rw [hkept, hunits, heq, ← List.append_assoc, List.rdropWhile_concat_neg _ _ _ hlast]

end Code

/-! ## UTF-8 -/

theorem utf8_head (c : Char) :
    ∃ first rest, String.utf8EncodeChar c = first :: rest ∧ first.IsUTF8FirstByte ∧
      ∀ x ∈ rest, ¬x.IsUTF8FirstByte := by
  obtain ⟨first, rest, heq⟩ := List.exists_cons_of_ne_nil (String.utf8EncodeChar_ne_nil (c := c))
  have hbyte : ∀ i (hi : i < (first :: rest).length),
      (first :: rest)[i].IsUTF8FirstByte ↔ i = 0 := by
    rw [← heq]
    exact fun i hi => UInt8.isUTF8FirstByte_getElem_utf8EncodeChar
  refine ⟨first, rest, heq, (hbyte 0 (by simp)).mpr rfl, fun x hx => ?_⟩
  obtain ⟨i, hi, rfl⟩ := List.mem_iff_getElem.mp hx
  exact fun hfirst => absurd ((hbyte (i + 1) (by simpa using hi)).mp hfirst) (Nat.succ_ne_zero i)

theorem utf8_unique {c c' : Char} {xs ys : List UInt8}
    (heq : String.utf8EncodeChar c ++ xs = String.utf8EncodeChar c' ++ ys) : c = c' := by
  have h := congrArg (fun bytes : List UInt8 => bytes.toByteArray.utf8DecodeChar? 0) heq
  simp only [List.toByteArray_append, ByteArray.utf8DecodeChar?_utf8EncodeChar_append] at h
  exact Option.some.inj h

def utf8 : Code Char UInt8 where
  encode := String.utf8EncodeChar
  lead := UInt8.IsUTF8FirstByte
  head := utf8_head
  unique := utf8_unique

theorem high_bit {mask : BitVec 8} (hmask : mask &&& 0x80#8 = 0x80#8) (b : BitVec 8) :
    (b ||| mask) &&& 0x80#8 ≠ 0#8 := by
  rw [BitVec.and_comm, BitVec.and_or_distrib_left, BitVec.and_comm _ mask, hmask]
  exact fun h => absurd (BitVec.or_eq_zero_iff.mp h).2 (by decide)

/-- A byte below 128 is a character, and part of no other. -/
theorem utf8_alone {x : UInt8} (hx : x &&& 0x80 = 0) : utf8.Alone x := by
  intro c hmem
  have hlow : x.toBitVec &&& 0x80#8 = 0#8 := congrArg UInt8.toBitVec hx
  obtain ⟨first, rest, heq, -, hrest⟩ := utf8_head c
  have hencode : utf8.encode c = first :: rest := heq
  rw [hencode] at hmem ⊢
  obtain rfl | hmem := List.mem_cons.mp hmem
  · have hsize := c.utf8Size_le_four
    have hpos := c.utf8Size_pos
    obtain h | h | h | h : c.utf8Size = 1 ∨ c.utf8Size = 2 ∨ c.utf8Size = 3 ∨ c.utf8Size = 4 := by
      omega
    · rw [String.utf8EncodeChar_eq_singleton h, List.cons.injEq] at heq
      rw [← heq.2]
    all_goals refine absurd hlow ?_
    · rw [String.utf8EncodeChar_eq_cons_cons h, List.cons.injEq] at heq
      exact heq.1 ▸ high_bit (by decide) _
    · rw [String.utf8EncodeChar_eq_cons_cons_cons h, List.cons.injEq] at heq
      exact heq.1 ▸ high_bit (by decide) _
    · rw [String.utf8EncodeChar_eq_cons_cons_cons_cons h, List.cons.injEq] at heq
      exact heq.1 ▸ high_bit (by decide) _
  · exact absurd (.inl hx) (hrest x hmem)

end SelfSync
