import Mathlib.Algebra.Group.Nat.Defs
import Mathlib.Tactic.Common

/-!
# Bytes

Byte strings as lists of bytes: slices, numbers in little-endian order, and UTF-8. What has been
concatenated is cut apart again with `slice_flatten`.
-/

namespace Nublado

/-- A byte string. -/
abbrev Bytes := List UInt8

namespace Bytes

/-- `bytes[a:b]` -/
def slice (bytes : Bytes) (a b : ℕ) : Bytes := (bytes.drop a).take (b - a)

/-- `int.from_bytes(bytes, byteorder="little")` -/
def toNat : Bytes → ℕ
  | [] => 0
  | b :: bytes => b.toNat + 256 * toNat bytes

/-- `n.to_bytes(length, byteorder="little")`, for numbers that fit. -/
def ofNat : ℕ → ℕ → Bytes
  | 0, _ => []
  | length + 1, n => UInt8.ofNat n :: ofNat length (n / 256)

/-- `text.encode()` -/
def encode (text : String) : Bytes := text.toUTF8.data.toList

/-- `bytes.decode()` -/
def decode (bytes : Bytes) : Option String := String.fromUTF8? ⟨bytes.toArray⟩

@[simp] theorem length_ofNat (length n : ℕ) : (ofNat length n).length = length := by
  induction length generalizing n with
  | zero => rfl
  | succ length ih => rw [ofNat, List.length_cons, ih]

/-- **Numbers are read as they are written**, if they fit. -/
theorem toNat_ofNat {length n : ℕ} (h : n < 256 ^ length) : toNat (ofNat length n) = n := by
  induction length generalizing n with
  | zero =>
    rw [pow_zero] at h
    show 0 = n
    omega
  | succ length ih =>
    have hrest : n / 256 < 256 ^ length := by
      rw [pow_succ] at h
      exact Nat.div_lt_of_lt_mul (by omega)
    show (UInt8.ofNat n).toNat + 256 * toNat (ofNat length (n / 256)) = n
    rw [ih hrest, UInt8.toNat_ofNat']
    omega

/-- **A part of a concatenation** stands behind the length of what is before it. -/
theorem slice_flatten {parts : List Bytes} {i : ℕ} {part : Bytes} (h : parts[i]? = some part) {a b : ℕ}
    (ha : a = (parts.take i).flatten.length) (hb : b = a + part.length) :
    slice parts.flatten a b = part := by
  obtain ⟨hi, rfl⟩ := List.getElem?_eq_some_iff.1 h
  have hsplit : parts.flatten =
      (parts.take i).flatten ++ (parts[i] ++ (parts.drop (i + 1)).flatten) := by
    rw [← List.flatten_cons, ← List.flatten_append, ← List.drop_eq_getElem_cons,
      List.take_append_drop]
  have hlength : b - a = parts[i].length := by omega
  rw [slice, hlength, ha, hsplit, List.drop_left, List.take_left]

/-- **Text is decoded as it is encoded.** -/
theorem decode_encode (text : String) : decode (encode text) = some text := by
  have hbytes : (⟨(encode text).toArray⟩ : ByteArray) = text.toUTF8 := by
    rw [encode, Array.toArray_toList]
  have hvalid : text.toUTF8.IsValidUTF8 := text.isValidUTF8
  rw [decode, hbytes, String.fromUTF8?, dif_pos hvalid]
  rfl

end Bytes

end Nublado
