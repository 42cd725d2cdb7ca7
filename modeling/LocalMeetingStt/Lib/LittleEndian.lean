import Mathlib.Data.List.Basic
import Mathlib.Tactic.Ring

/-!
# Fixed-width little-endian fields

A binary header is a byte list with numbers at fixed offsets. `field width n` writes a
number as that many bytes, least significant first, and drops what does not fit;
`value` reads bytes back. `at` and `overwrite` are the two ways code touches such a
header: it reads a few bytes at an offset, or replaces them in place.
-/

namespace LittleEndian

abbrev Bytes := List UInt8

/-- `width` bytes of `n`, least significant first. -/
def field : Nat → Nat → Bytes
  | 0, _ => []
  | width + 1, n => UInt8.ofNat n :: field width (n / 256)

/-- The number the bytes stand for. -/
def value (bytes : Bytes) : Nat := bytes.foldr (fun b rest => b.toNat + 256 * rest) 0

@[simp] theorem field_length (width n : Nat) : (field width n).length = width := by
  induction width generalizing n with
  | zero => rfl
  | succ width ih => simp [field, ih]

/-- What was written is read back, if it fits. -/
theorem value_field {width n : Nat} (h : n < 256 ^ width) : value (field width n) = n := by
  induction width generalizing n with
  | zero => simp only [Nat.pow_zero, Nat.lt_one_iff] at h; subst h; rfl
  | succ width ih =>
    have hrest : n / 256 < 256 ^ width := by
      rw [Nat.pow_succ] at h
      omega
    have hcons : value (field (width + 1) n) =
        (UInt8.ofNat n).toNat + 256 * value (field width (n / 256)) := rfl
    rw [hcons, ih hrest, UInt8.toNat_ofNat']
    omega

/-- And what was read is what would be written. -/
theorem field_value (bytes : Bytes) : field bytes.length (value bytes) = bytes := by
  induction bytes with
  | nil => rfl
  | cons b rest ih =>
    have hvalue : value (b :: rest) = b.toNat + 256 * value rest := rfl
    have hbyte := b.toNat_lt
    have hrest : value (b :: rest) / 256 = value rest := by omega
    have hfirst : UInt8.ofNat (value (b :: rest)) = b := by
      rw [← UInt8.toNat_inj, UInt8.toNat_ofNat']
      omega
    rw [List.length_cons, field, hrest, hfirst, ih]

/-- `count` bytes from an offset on. -/
def bytesAt (bytes : Bytes) (offset count : Nat) : Bytes := (bytes.drop offset).take count

/-- `new` written over the bytes at an offset. -/
def overwrite (bytes : Bytes) (offset : Nat) (new : Bytes) : Bytes :=
  bytes.take offset ++ new ++ bytes.drop (offset + new.length)

/-- Reading the middle of three parts. -/
theorem bytesAt_middle (front : Bytes) {bytes mid back : Bytes} {offset count : Nat}
    (h : bytes = front ++ (mid ++ back)) (hoffset : front.length = offset)
    (hcount : mid.length = count) : bytesAt bytes offset count = mid := by
  subst h hoffset hcount
  simp [bytesAt]

/-- Writing over the middle of three parts. -/
theorem overwrite_middle (front : Bytes) {old new : Bytes} {offset : Nat}
    (hoffset : front.length = offset) (hnew : new.length = old.length) (back : Bytes) :
    overwrite (front ++ (old ++ back)) offset new = front ++ (new ++ back) := by
  subst hoffset
  rw [overwrite, List.take_left, hnew, ← List.drop_drop, List.drop_left, List.drop_left,
    List.append_assoc]

/-- What was written over an offset is read back there. -/
theorem bytesAt_overwrite {bytes new : Bytes} {offset count : Nat}
    (hoffset : offset ≤ bytes.length) (hcount : new.length = count) :
    bytesAt (overwrite bytes offset new) offset count = new :=
  bytesAt_middle _ (List.append_assoc _ _ _) (by simp [hoffset]) hcount

@[simp] theorem overwrite_length {bytes new : Bytes} {offset : Nat}
    (h : offset + new.length ≤ bytes.length) :
    (overwrite bytes offset new).length = bytes.length := by
  simp only [overwrite, List.length_append, List.length_take, List.length_drop]
  omega

/-- What is not written over stays. -/
theorem getElem?_overwrite {bytes new : Bytes} {offset i : Nat} (hoffset : offset ≤ bytes.length)
    (h : i < offset ∨ offset + new.length ≤ i) : (overwrite bytes offset new)[i]? = bytes[i]? := by
  have hfront : (bytes.take offset).length = offset := List.length_take_of_le hoffset
  rcases h with hbefore | hafter
  · rw [overwrite, List.append_assoc, List.getElem?_append_left (by omega),
      List.getElem?_take_of_lt hbefore]
  · rw [overwrite, List.getElem?_append_right (by rw [List.length_append]; omega),
      List.getElem?_drop, List.length_append, hfront]
    congr 1
    omega

theorem getElem?_bytesAt (bytes : Bytes) (offset count i : Nat) :
    (bytesAt bytes offset count)[i]? = if i < count then bytes[offset + i]? else none := by
  rw [bytesAt, List.getElem?_take, List.getElem?_drop]

/-- A read that does not overlap the write. -/
theorem bytesAt_overwrite_apart {bytes new : Bytes} {offset at' count : Nat}
    (hoffset : offset ≤ bytes.length)
    (h : at' + count ≤ offset ∨ offset + new.length ≤ at') :
    bytesAt (overwrite bytes offset new) at' count = bytesAt bytes at' count := by
  apply List.ext_getElem?
  intro i
  rw [getElem?_bytesAt, getElem?_bytesAt]
  split_ifs with hi
  · exact getElem?_overwrite hoffset (by omega)
  · rfl

end LittleEndian
