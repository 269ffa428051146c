import Mathlib.Algebra.Order.Ring.Nat
import Mathlib.Data.List.Basic
import Mathlib.Order.Compare
import Mathlib.Tactic.Ring

/-!
# Decimal numerals as texts

A natural number is written as its decimal digits, most significant first, with no leading zero. Texts
are compared character by character, and so numerals are not compared as numbers.

* `compare_digits`: texts of as many digits compare like the numbers that they denote.
* `compare_numeral`: a numeral is compared with the leading digits of a longer one, as many as it has
  itself. So nine follows ten, but not ninety.
-/

namespace Nublado

/-- The decimal digits of a number. -/
abbrev numeral (n : ℕ) : List Char := Nat.toDigits 10 n

/-- The number that some digits denote. -/
abbrev digitsValue (digits : List Char) : ℕ := Nat.ofDigitChars 10 digits 0

variable {as bs : List Char} {c c' : Char} {m n : ℕ}

theorem isDigit_of_mem_numeral (h : c ∈ numeral n) : c.isDigit = true :=
  Nat.isDigit_of_mem_toDigits (by omega) (by omega) h

@[simp] theorem digitsValue_numeral (n : ℕ) : digitsValue (numeral n) = n :=
  Nat.ofDigitChars_ten_toDigits

/-- Numerals of different numbers are different. -/
theorem numeral_injective : Function.Injective numeral := fun m n h ↦ by
  rw [← digitsValue_numeral m, ← digitsValue_numeral n, h]

/-- A longer numeral denotes a larger number. -/
theorem lt_of_length_numeral_lt (h : (numeral m).length < (numeral n).length) : m < n := by
  by_contra hle
  have hpos : 0 < (numeral m).length := Nat.length_toDigits_pos
  have hm : m < 10 ^ (numeral m).length := (Nat.length_toDigits_le_iff (by omega) hpos).1 le_rfl
  have hn : (numeral n).length ≤ (numeral m).length :=
    (Nat.length_toDigits_le_iff (by omega) hpos).2 (by omega)
  omega

/-! ### Digits of all scripts -/

/-- The digit zero of every decimal digit block of Unicode. -/
def decimalZeros : List ℕ :=
  [0x30, 0x660, 0x6F0, 0x7C0, 0x966, 0x9E6, 0xA66, 0xAE6, 0xB66, 0xBE6, 0xC66, 0xCE6, 0xD66, 0xDE6,
    0xE50, 0xED0, 0xF20, 0x1040, 0x1090, 0x17E0, 0x1810, 0x1946, 0x19D0, 0x1A80, 0x1A90, 0x1B50,
    0x1BB0, 0x1C40, 0x1C50, 0xA620, 0xA8D0, 0xA900, 0xA9D0, 0xA9F0, 0xAA50, 0xABF0, 0xFF10, 0x104A0,
    0x10D30, 0x10D40, 0x11066, 0x110F0, 0x11136, 0x111D0, 0x112F0, 0x11450, 0x114D0, 0x11650,
    0x116C0, 0x116D0, 0x116DA, 0x11730, 0x118E0, 0x11950, 0x11BF0, 0x11C50, 0x11D50, 0x11DA0,
    0x11F50, 0x16130, 0x16A60, 0x16AC0, 0x16B50, 0x16D70, 0x1CCF0, 0x1D7CE, 0x1D7D8, 0x1D7E2,
    0x1D7EC, 0x1D7F6, 0x1E140, 0x1E2F0, 0x1E4F0, 0x1E5F1, 0x1E950, 0x1FBF0]

/-- The value of a decimal digit. -/
def decimalDigit (c : Char) : Option ℕ :=
  (decimalZeros.find? fun z ↦ z ≤ c.toNat && c.toNat < z + 10).map fun z ↦ c.toNat - z

/-- `\d` -/
def isDecimal (c : Char) : Bool := (decimalDigit c).isSome

/-- Conversions of longer texts to an integer raise. -/
def maxIntDigits : ℕ := 4300

/-! ### Digits -/

/-- A digit stands for its distance from zero. -/
theorem toNat_of_isDigit (h : c.isDigit = true) : 48 ≤ c.toNat ∧ c.toNat ≤ 57 := by
  simp only [Char.isDigit, ge_iff_le, Bool.and_eq_true, decide_eq_true_eq] at h
  exact ⟨h.1, h.2⟩

/-- Characters are compared by their codes. -/
theorem compare_char (c c' : Char) : compare c c' = compare c.toNat c'.toNat := by
  show compareOfLessAndEq c c' = compareOfLessAndEq c.toNat c'.toNat
  have hlt : c < c' ↔ c.toNat < c'.toNat := Iff.rfl
  have heq : c = c' ↔ c.toNat = c'.toNat :=
    ⟨congrArg _, fun h ↦ Char.ext (UInt32.toNat_inj.1 h)⟩
  simp only [compareOfLessAndEq, hlt, heq]

/-- Some digits in front of others. -/
theorem digitsValue_append (as bs : List Char) :
    digitsValue (as ++ bs) = 10 ^ bs.length * digitsValue as + digitsValue bs := by
  rw [digitsValue, Nat.ofDigitChars_append, Nat.ofDigitChars_eq_ofDigitChars_zero]

/-- Digits denote a number that is as long as they are, at most. -/
theorem digitsValue_lt (h : ∀ c ∈ as, c.isDigit = true) : digitsValue as < 10 ^ as.length := by
  induction as with
  | nil => simp
  | cons a as ih =>
    have ha := toNat_of_isDigit (h a List.mem_cons_self)
    have hrest := ih fun c hc ↦ h c (List.mem_cons_of_mem _ hc)
    rw [digitsValue, Nat.ofDigitChars_cons, Nat.ofDigitChars_eq_ofDigitChars_zero,
      List.length_cons, pow_succ']
    have hdigit : 10 * 0 + (a.toNat - '0'.toNat) ≤ 9 := by
      have hzero : '0'.toNat = 48 := rfl
      omega
    calc 10 ^ as.length * (10 * 0 + (a.toNat - '0'.toNat)) + Nat.ofDigitChars 10 as 0
        ≤ 10 ^ as.length * 9 + digitsValue as := Nat.add_le_add_right (Nat.mul_le_mul_left _ hdigit) _
      _ < 10 ^ as.length * 9 + 10 ^ as.length := Nat.add_lt_add_left hrest _
      _ = 10 * 10 ^ as.length := by ring

/-- **Texts of as many digits compare like the numbers that they denote.** -/
theorem compare_digits (has : ∀ c ∈ as, c.isDigit = true) (hbs : ∀ c ∈ bs, c.isDigit = true)
    (hlength : as.length = bs.length) :
    compare as bs = compare (digitsValue as) (digitsValue bs) := by
  induction as generalizing bs with
  | nil =>
    obtain rfl := List.eq_nil_of_length_eq_zero hlength.symm
    rfl
  | cons a as ih =>
    rcases bs with _ | ⟨b, bs⟩
    · cases hlength
    have hlength : as.length = bs.length := by simpa using hlength
    have has' : ∀ c ∈ as, c.isDigit = true := fun c hc ↦ has c (List.mem_cons_of_mem _ hc)
    have hbs' : ∀ c ∈ bs, c.isDigit = true := fun c hc ↦ hbs c (List.mem_cons_of_mem _ hc)
    have ha := toNat_of_isDigit (has a List.mem_cons_self)
    have hb := toNat_of_isDigit (hbs b List.mem_cons_self)
    have hlt := digitsValue_lt has'
    have hlt' := digitsValue_lt hbs'
    have hvalue : ∀ (c : Char) (cs : List Char), digitsValue (c :: cs) =
        10 ^ cs.length * (c.toNat - 48) + digitsValue cs := by
      intro c cs
      rw [digitsValue, Nat.ofDigitChars_cons, Nat.ofDigitChars_eq_ofDigitChars_zero]
      simp
    rw [List.compare_cons_cons, ih has' hbs' hlength, compare_char, hvalue, hvalue, hlength]
    rw [hlength] at hlt
    -- The first digits decide, unless they are the same.
    rcases lt_trichotomy a.toNat b.toNat with hab | hab | hab
    · have hstep : 10 ^ bs.length * (a.toNat - 48) + 10 ^ bs.length ≤
          10 ^ bs.length * (b.toNat - 48) := by
        rw [← Nat.mul_succ]
        exact Nat.mul_le_mul_left _ (by omega)
      have hless : compare (10 ^ bs.length * (a.toNat - 48) + digitsValue as)
          (10 ^ bs.length * (b.toNat - 48) + digitsValue bs) = .lt :=
        compare_lt_iff_lt.2 (by omega)
      rw [compare_lt_iff_lt.2 hab, hless]
      rfl
    · rw [hab, compare_eq_iff_eq.2 rfl]
      simp only [Ordering.eq_then]
      rcases lt_trichotomy (digitsValue as) (digitsValue bs) with h | h | h
      · rw [compare_lt_iff_lt.2 h, eq_comm, compare_lt_iff_lt]
        omega
      · rw [h, compare_eq_iff_eq.2 rfl, compare_eq_iff_eq.2 rfl]
      · rw [compare_gt_iff_gt.2 h, eq_comm, compare_gt_iff_gt]
        omega
    · have hstep : 10 ^ bs.length * (b.toNat - 48) + 10 ^ bs.length ≤
          10 ^ bs.length * (a.toNat - 48) := by
        rw [← Nat.mul_succ]
        exact Nat.mul_le_mul_left _ (by omega)
      have hgreater : compare (10 ^ bs.length * (a.toNat - 48) + digitsValue as)
          (10 ^ bs.length * (b.toNat - 48) + digitsValue bs) = .gt :=
        compare_gt_iff_gt.2 (by omega)
      rw [compare_gt_iff_gt.2 hab, hgreater]
      rfl

/-- A text is compared with as many characters of a longer one as it has, and comes first if they are
the same. -/
theorem compare_append {rest : List Char} (hlength : as.length = bs.length) :
    compare as (bs ++ rest) = (compare as bs).then (compare [] rest) := by
  induction as generalizing bs with
  | nil =>
    obtain rfl := List.eq_nil_of_length_eq_zero hlength.symm
    rfl
  | cons a as ih =>
    rcases bs with _ | ⟨b, bs⟩
    · cases hlength
    · rw [List.cons_append, List.compare_cons_cons, List.compare_cons_cons,
        ih (by simpa using hlength), Ordering.then_assoc]

/-! ### Numerals -/

/-- **How numerals compare as texts.** -/
theorem compare_numeral (h : (numeral m).length ≤ (numeral n).length) :
    compare (numeral m) (numeral n) =
      (compare m (n / 10 ^ ((numeral n).length - (numeral m).length))).then
        (if (numeral m).length = (numeral n).length then .eq else .lt) := by
  obtain ⟨leading, hleading⟩ : ∃ leading, leading = (numeral n).take (numeral m).length := ⟨_, rfl⟩
  obtain ⟨rest, hrest⟩ : ∃ rest, rest = (numeral n).drop (numeral m).length := ⟨_, rfl⟩
  have hsplit : leading ++ rest = numeral n := by
    rw [hleading, hrest, List.take_append_drop]
  have hlength : (numeral m).length = leading.length := by
    rw [hleading, List.length_take]
    omega
  have hrestLength : rest.length = (numeral n).length - (numeral m).length := by
    rw [hrest, List.length_drop]
  have hdigits : ∀ c ∈ leading ++ rest, c.isDigit = true := by
    rw [hsplit]
    exact fun c ↦ isDigit_of_mem_numeral
  have hleadingDigits : ∀ c ∈ leading, c.isDigit = true := fun c hc ↦
    hdigits c (List.mem_append_left _ hc)
  have hvalue : digitsValue leading = n / 10 ^ rest.length := by
    have hlt := digitsValue_lt fun c hc ↦ hdigits c (List.mem_append_right _ hc)
    have hn := digitsValue_append leading rest
    rw [hsplit, digitsValue_numeral] at hn
    rw [hn, Nat.mul_add_div (Nat.pow_pos (by omega)), Nat.div_eq_of_lt hlt, Nat.add_zero]
  have hcompare : compare (numeral m) (numeral n) =
      (compare (numeral m) leading).then (compare [] rest) := by
    rw [← hsplit, compare_append hlength]
  rw [hcompare, compare_digits (fun c ↦ isDigit_of_mem_numeral) hleadingDigits hlength,
    digitsValue_numeral, hvalue, hrestLength]
  congr 1
  rcases rest with _ | ⟨c, rest⟩
  · rw [if_pos (by simp at hrestLength; omega)]
    rfl
  · rw [if_neg (by simp at hrestLength; omega)]
    rfl

/-- A larger number has no shorter numeral. -/
theorem length_numeral_mono (h : m ≤ n) : (numeral m).length ≤ (numeral n).length := by
  by_contra hlt
  have hless : n < m := lt_of_length_numeral_lt (by omega)
  omega

/-- The smaller number is at most what the leading digits of the larger form, as many of them as the
smaller has. -/
def LeadingDigitsOrdered (m n : ℕ) : Prop :=
  min m n ≤ max m n / 10 ^ ((numeral (max m n)).length - (numeral (min m n)).length)

theorem leadingDigitsOrdered_comm : LeadingDigitsOrdered m n ↔ LeadingDigitsOrdered n m := by
  rw [LeadingDigitsOrdered, LeadingDigitsOrdered, min_comm, max_comm]

/-- A smaller numeral precedes a larger one just where its number is at most what the leading digits
of the larger form. -/
theorem compare_numeral_eq_lt_iff (h : m < n) :
    compare (numeral m) (numeral n) = .lt ↔ LeadingDigitsOrdered m n := by
  have hlength := length_numeral_mono h.le
  rw [compare_numeral hlength, LeadingDigitsOrdered, min_eq_left h.le, max_eq_right h.le]
  rcases eq_or_ne (numeral m).length (numeral n).length with heq | hne
  · have hquotient : n / 10 ^ ((numeral n).length - (numeral m).length) = n := by
      rw [heq, Nat.sub_self, pow_zero, Nat.div_one]
    rw [if_pos heq, Ordering.then_eq, hquotient]
    exact iff_of_true (compare_lt_iff_lt.2 h) h.le
  · rw [if_neg hne]
    rcases lt_trichotomy m (n / 10 ^ ((numeral n).length - (numeral m).length)) with hlt | heq | hgt
    · rw [compare_lt_iff_lt.2 hlt]
      exact iff_of_true rfl hlt.le
    · rw [compare_eq_iff_eq.2 heq]
      exact iff_of_true rfl heq.le
    · rw [compare_gt_iff_gt.2 hgt]
      exact iff_of_false (by simp) hgt.not_ge

/-- **When numerals compare as numbers.** -/
theorem compare_numeral_eq_iff :
    compare (numeral m) (numeral n) = compare m n ↔ LeadingDigitsOrdered m n := by
  rcases lt_trichotomy m n with hlt | rfl | hgt
  · rw [compare_lt_iff_lt.2 hlt]
    exact compare_numeral_eq_lt_iff hlt
  · refine iff_of_true ?_ ?_
    · have hnumeral : compare (numeral m) (numeral m) = .eq := Std.ReflCmp.compare_self
      rw [hnumeral, compare_eq_iff_eq.2 rfl]
    · simp [LeadingDigitsOrdered]
  · have hswap : compare (numeral m) (numeral n) = (compare (numeral n) (numeral m)).swap :=
      Std.OrientedCmp.eq_swap
    rw [compare_gt_iff_gt.2 hgt, leadingDigitsOrdered_comm, ← compare_numeral_eq_lt_iff hgt, hswap]
    exact Ordering.swap_eq_gt

end Nublado
