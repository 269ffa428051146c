import Nublado.Foundations.Bytes

/-!
# Base 64

Bytes as texts of 64 characters, three bytes in four characters. The reader is the lenient one: it skips
characters that are none of the 64, reads as far as the padding that completes a group of four, and
refuses a text that ends inside a group (`decodeFrom`). What has been encoded is decoded
(`decode_encode`).
-/

namespace Nublado

namespace Base64

/-- The character for six bits. -/
@[grind =] def digit (n : ℕ) : Char :=
  if n < 26 then Char.ofNat (n + 65)
  else if n < 52 then Char.ofNat (n + 71)
  else if n < 62 then Char.ofNat (n - 4)
  else if n = 62 then '+'
  else '/'

/-- The six bits that a character stands for. -/
@[grind =] def value (c : Char) : Option ℕ :=
  if 'A' ≤ c ∧ c ≤ 'Z' then some (c.toNat - 65)
  else if 'a' ≤ c ∧ c ≤ 'z' then some (c.toNat - 71)
  else if '0' ≤ c ∧ c ≤ '9' then some (c.toNat + 4)
  else if c = '+' then some 62
  else if c = '/' then some 63
  else none

/-- `base64.b64encode(bytes)` -/
@[grind =] def encode : Bytes → List Char
  | [] => []
  | [a] => [digit (a.toNat / 4), digit (a.toNat % 4 * 16), '=', '=']
  | [a, b] =>
    [digit (a.toNat / 4), digit (a.toNat % 4 * 16 + b.toNat / 16), digit (b.toNat % 16 * 4), '=']
  | a :: b :: c :: bytes =>
    digit (a.toNat / 4) :: digit (a.toNat % 4 * 16 + b.toNat / 16) ::
      digit (b.toNat % 16 * 4 + c.toNat / 64) :: digit (c.toNat % 64) :: encode bytes

/-- The bytes of a text, from a place inside a group: `quad` characters of the group have been read, the
bits of the last one that are not yet part of a byte are `left`, and `pads` padding characters follow. -/
@[grind =] def decodeFrom : ℕ → ℕ → ℕ → List Char → Option Bytes
  | quad, _, _, [] => if quad = 0 then some [] else none
  | quad, left, pads, c :: text =>
    if c = '=' then
      if quad < 2 then decodeFrom quad left pads text
      else if 4 ≤ quad + (pads + 1) then some []
      else decodeFrom quad left (pads + 1) text
    else match value c with
      | none => decodeFrom quad left pads text
      | some v =>
        if quad = 0 then decodeFrom 1 v 0 text
        else if quad = 1 then
          (decodeFrom 2 (v % 16) 0 text).map (UInt8.ofNat (left * 4 + v / 16) :: ·)
        else if quad = 2 then
          (decodeFrom 3 (v % 4) 0 text).map (UInt8.ofNat (left * 16 + v / 4) :: ·)
        else (decodeFrom 0 0 0 text).map (UInt8.ofNat (left * 64 + v) :: ·)

/-- `base64.b64decode(text)` -/
@[grind =] def decode (text : List Char) : Option Bytes := decodeFrom 0 0 0 text

/-! ### One character -/

theorem value_digit : ∀ n < 64, value (digit n) = some n := by decide

theorem digit_ne_pad : ∀ n < 64, digit n ≠ '=' := by decide

variable {n : ℕ} (left pads : ℕ) (text : List Char)

theorem decodeFrom_zero (h : n < 64) : decodeFrom 0 left pads (digit n :: text) = decodeFrom 1 n 0 text := by
  rw [decodeFrom, if_neg (digit_ne_pad n h), value_digit n h]
  rfl

theorem decodeFrom_one (h : n < 64) : decodeFrom 1 left pads (digit n :: text) =
    (decodeFrom 2 (n % 16) 0 text).map (UInt8.ofNat (left * 4 + n / 16) :: ·) := by
  rw [decodeFrom, if_neg (digit_ne_pad n h), value_digit n h]
  rfl

theorem decodeFrom_two (h : n < 64) : decodeFrom 2 left pads (digit n :: text) =
    (decodeFrom 3 (n % 4) 0 text).map (UInt8.ofNat (left * 16 + n / 4) :: ·) := by
  rw [decodeFrom, if_neg (digit_ne_pad n h), value_digit n h]
  rfl

theorem decodeFrom_three (h : n < 64) : decodeFrom 3 left pads (digit n :: text) =
    (decodeFrom 0 0 0 text).map (UInt8.ofNat (left * 64 + n) :: ·) := by
  rw [decodeFrom, if_neg (digit_ne_pad n h), value_digit n h]
  rfl

/-! ### The round trip -/

/-- A byte is put together from its parts. -/
theorem ofNat_eq {a : UInt8} (h : n = a.toNat) : UInt8.ofNat n = a := by
  rw [h, UInt8.ofNat_toNat]

/-- **What has been encoded is decoded.** -/
theorem decode_encode (bytes : Bytes) : decode (encode bytes) = some bytes := by
  rw [decode]
  induction bytes using encode.induct with
  | case1 => rfl
  | case2 a =>
    have ha := a.toNat_lt
    rw [encode, decodeFrom_zero _ _ _ (by omega), decodeFrom_one _ _ _ (by omega), ofNat_eq (a := a) (by omega)]
    rfl
  | case3 a b =>
    have ha := a.toNat_lt
    have hb := b.toNat_lt
    rw [encode, decodeFrom_zero _ _ _ (by omega), decodeFrom_one _ _ _ (by omega),
      decodeFrom_two _ _ _ (by omega), ofNat_eq (a := a) (by omega), ofNat_eq (a := b) (by omega)]
    rfl
  | case4 a b c bytes ih =>
    have ha := a.toNat_lt
    have hb := b.toNat_lt
    have hc := c.toNat_lt
    rw [encode, decodeFrom_zero _ _ _ (by omega), decodeFrom_one _ _ _ (by omega),
      decodeFrom_two _ _ _ (by omega), decodeFrom_three _ _ _ (by omega), ih,
      ofNat_eq (a := a) (by omega), ofNat_eq (a := b) (by omega), ofNat_eq (a := c) (by omega)]
    rfl

end Base64

end Nublado
