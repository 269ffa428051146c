import Nublado.Foundations.Except
import Nublado.Lab.Quantity

/-!
# What counts as an amount of CPU

An amount of CPU is documented to be a whole number of millicores followed by `m`, or a number with at
most three decimal places (`IsAmount`). Every such text is accepted with the number of cores that it says
(`cpuToCores_of_isAmount`). But numbers are read with `float`, and it reads more: signs, exponents,
underscores, whitespace, digits of other scripts, and the words for what is infinite or no number.

`meetsGrammar_iff` says exactly which texts are accepted although they are no amounts: those that `float`
reads with at most three characters behind any point, and digits followed by `m`, if they contain any
character other than digits of ASCII, points and `m`. The comparison of requests with limits, which is
false for what is no number, lets the consequences through (`requests_iff`).
-/

namespace Nublado.Lab

variable {l : List Char} {x : ℚ} {v : FloatValue}

/-! ### What is documented -/

/-- A whole number of millicores. -/
def IsMillicores (l : List Char) (x : ℚ) : Prop :=
  ∃ ds : Digits, ds.1 ≠ [] ∧ l = ds.1 ++ ['m'] ∧ x = digitsValue ds.1 / 1000

/-- A decimal number without a sign and with at most three decimal places. -/
def IsCores (l : List Char) (x : ℚ) : Prop :=
  ∃ n : Numeral, n.sign = .absent ∧ n.exponent = none ∧ n.fractionDigits.length ≤ 3 ∧
    l = n.text ∧ x = n.value

/-- An amount of CPU in cores. -/
def IsAmount (l : List Char) (x : ℚ) : Prop := IsMillicores l x ∨ IsCores l x

/-- The text is accepted if and only if it is an amount, and then as that amount. -/
def MeetsGrammar (l : List Char) : Prop :=
  (∀ v, cpuToCores l = .ok v → ∃ x, v = .finite x ∧ IsAmount l x) ∧
  ∀ x, IsAmount l x → cpuToCores l = .ok (.finite x)

/-! ### What is accepted -/

/-- Digits of any script followed by `m`. -/
def IsMarked (l : List Char) : Prop :=
  l.dropLast ≠ [] ∧ (∀ c ∈ l.dropLast, isDecimal c = true) ∧ l.getLast? = some 'm'

/-- More than three characters follow a point. -/
def IsLong (l : List Char) : Prop := '.' ∈ l ∧ 3 < (l.dropWhile (· ≠ '.')).tail.length

instance (l : List Char) : Decidable (IsLong l) := inferInstanceAs (Decidable (_ ∧ _))

/-- What the expression for millicores matches. It also matches before a newline at the end. -/
theorem isSome_millicoresRegex_iff : (millicoresRegex.matchStart l).isSome = true ↔
    ∃ ds ending, ds ≠ [] ∧ (∀ c ∈ ds, isDecimal c = true) ∧ (ending = [] ∨ ending = ['\n']) ∧
      l = ds ++ 'm' :: ending := by
  constructor
  · intro h
    obtain ⟨caps, hcaps⟩ := Option.isSome_iff_exists.1 h
    obtain ⟨rest, hderives⟩ := Regex.derives_of_matchStart hcaps
    obtain ⟨l₂, caps₂, hderives, heol⟩ := Regex.derives_append_iff.1 hderives
    obtain ⟨l₁, caps₁, hmany, hmark⟩ := Regex.derives_append_iff.1 hderives
    obtain ⟨ds, rfl, hds, hmin, -⟩ := Regex.derives_many_iff.1 hmany
    obtain ⟨rfl, -⟩ := Regex.derives_char_iff.1 hmark
    exact ⟨ds, l₂, List.length_pos_iff.1 hmin, hds, (Regex.derives_eol_iff.1 heol).1, rfl⟩
  · rintro ⟨ds, ending, hne, hds, hending, rfl⟩
    refine @Regex.matchStart_isSome _ _ ending [] ?_
    refine Regex.derives_append_iff.2 ⟨ending, [], Regex.derives_append_iff.2 ⟨'m' :: ending, [],
      Regex.derives_many_iff.2 ⟨ds, rfl, hds, List.length_pos_iff.2 hne, rfl⟩,
      Regex.derives_char_iff.2 ⟨rfl, rfl⟩⟩, Regex.derives_eol_iff.2 ⟨hending, rfl, rfl⟩⟩

/-- `float` reads nothing with an `m` in it. -/
theorem floatPadded_of_mem (h : 'm' ∈ l) : floatPadded l = none := by
  refine Option.eq_none_iff_forall_ne_some.2 fun v hv ↦ ?_
  obtain ⟨t, ht, hcases⟩ := cases_of_floatOf hv
  have hm : 'm' ∈ t := mem_of_plain ht (mem_unpad h (by decide)) (by decide)
  rcases hcases with ⟨n, rfl, -⟩ | ⟨sign, word, rfl, hword⟩
  · rcases n.mem_text hm with hdigit | hmem
    · cases hdigit
    · revert hmem
      decide
  · rcases List.mem_append.1 hm with hsign | hm
    · cases sign with
      | absent => cases hsign
      | plus => exact absurd (List.mem_singleton.1 hsign) (by decide)
      | minus => exact absurd (List.mem_singleton.1 hsign) (by decide)
    · have hlower := toLower_mem_of_numberWords hword hm
      revert hlower
      decide

/-- Digits followed by `m` are accepted as millicores. -/
theorem cpuToCores_of_isMarked (h : IsMarked l) :
    cpuToCores l = .ok (.finite (digitsValue (l.dropLast.map readAs) / 1000)) := by
  obtain ⟨hne, hds, hlast⟩ := h
  have hl : l = l.dropLast ++ 'm' :: [] := (List.dropLast_append_getLast? 'm' hlast).symm
  have hmatch : (millicoresRegex.matchStart l).isSome = true :=
    isSome_millicoresRegex_iff.2 ⟨l.dropLast, [], hne, hds, Or.inl rfl, hl⟩
  rw [cpuToCores, if_pos hmatch, floatPadded_decimals hne hds]

/-- Other texts are accepted as `float` reads them. -/
theorem cpuToCores_eq_ok_iff (h : ¬ IsMarked l) :
    cpuToCores l = .ok v ↔ floatPadded l = some v ∧ ¬ IsLong l := by
  by_cases hmatch : (millicoresRegex.matchStart l).isSome = true
  · -- a newline is in the way
    obtain ⟨ds, ending, hne, hds, hending, rfl⟩ := isSome_millicoresRegex_iff.1 hmatch
    rcases hending with rfl | rfl
    · refine absurd ⟨?_, ?_, ?_⟩ h
      · simpa using hne
      · simpa using hds
      · simp
    · have hnone : floatPadded (ds ++ ['m']) = none := floatPadded_of_mem (by simp)
      have hdrop : (ds ++ ['m', '\n']).dropLast = ds ++ ['m'] := by
        rw [List.dropLast_append_of_ne_nil (by simp)]
        rfl
      rw [cpuToCores, if_pos hmatch, hdrop, hnone, floatPadded_of_mem (by simp)]
      simp
  · rw [cpuToCores, if_neg hmatch]
    rcases floatPadded l with _ | w
    · simp
    · show (if IsLong l then Except.error cpuMessage else Except.ok w) = .ok v ↔ _
      by_cases hlong : IsLong l
      · rw [if_pos hlong]
        simp [hlong]
      · rw [if_neg hlong]
        simp [hlong]

/-- What `cpu_to_cores` accepts, whatever it makes of it. -/
def Reads (l : List Char) : Prop := IsMarked l ∨ (floatPadded l).isSome = true ∧ ¬ IsLong l

theorem exists_of_reads (h : Reads l) : ∃ v, cpuToCores l = .ok v := by
  by_cases hmarked : IsMarked l
  · exact ⟨_, cpuToCores_of_isMarked hmarked⟩
  · obtain ⟨hsome, hlong⟩ := h.resolve_left hmarked
    obtain ⟨v, hv⟩ := Option.isSome_iff_exists.1 hsome
    exact ⟨v, (cpuToCores_eq_ok_iff hmarked).2 ⟨hv, hlong⟩⟩

theorem reads_of_eq_ok (h : cpuToCores l = .ok v) : Reads l := by
  by_cases hmarked : IsMarked l
  · exact Or.inl hmarked
  · obtain ⟨hv, hlong⟩ := (cpuToCores_eq_ok_iff hmarked).1 h
    exact Or.inr ⟨Option.isSome_iff_exists.2 ⟨v, hv⟩, hlong⟩

/-! ### Amounts are accepted -/

/-- The characters of amounts: digits of ASCII, points and `m`. -/
def IsPlainChar (c : Char) : Prop := c.isDigit = true ∨ c = '.' ∨ c = 'm'

theorem readAs_of_isPlainChar {c : Char} (h : IsPlainChar c) : readAs c = c := by
  rcases h with hdigit | rfl | rfl
  · refine readAs_of_ascii ?_
    have := toNat_of_isDigit hdigit
    omega
  · rfl
  · rfl

theorem isPadding_of_isPlainChar {c : Char} (h : IsPlainChar c) : isPadding c = false := by
  rcases h with hdigit | rfl | rfl
  · exact isPadding_of_isDecimal (isDecimal_of_isDigit hdigit)
  · rfl
  · rfl

theorem map_readAs_of_plain (h : ∀ c ∈ l, IsPlainChar c) : l.map readAs = l := by
  rw [List.map_congr_left fun c hc ↦ readAs_of_isPlainChar (h c hc)]
  exact List.map_id' l

/-- A text of such characters is read as it is. -/
theorem floatPadded_of_plain (h : ∀ c ∈ l, IsPlainChar c) :
    unpad l = l ∧ plain l = some l := by
  refine ⟨unpad_eq_self fun c hc ↦ isPadding_of_isPlainChar (h c hc), ?_⟩
  have hplain : plain l = some (l.map readAs) := by
    refine plain_eq_map fun c hc heq ↦ ?_
    have hchar := h c hc
    rw [readAs_of_isPlainChar hchar] at heq
    subst heq
    rcases hchar with hdigit | hpoint | hm
    · cases hdigit
    · cases hpoint
    · cases hm
  rwa [map_readAs_of_plain h] at hplain

section Unsigned

variable {n : Numeral}

/-- A numeral without a sign and an exponent. -/
theorem text_of_unsigned (hsign : n.sign = .absent) (hexponent : n.exponent = none) :
    n.text = n.whole.1 ++ Numeral.fractionText n.fraction := by
  rw [Numeral.text, hsign, hexponent]
  show [] ++ (n.whole.1 ++ (Numeral.fractionText n.fraction ++ [])) = _
  rw [List.nil_append, List.append_nil]

theorem mem_text_of_unsigned (hsign : n.sign = .absent) (hexponent : n.exponent = none) {c : Char}
    (hc : c ∈ n.text) : c.isDigit = true ∨ c = '.' := by
  rw [text_of_unsigned hsign hexponent] at hc
  rcases List.mem_append.1 hc with hc | hc
  · exact Or.inl (n.whole.2 c hc)
  · rcases hfraction : n.fraction with _ | ds
    · rw [hfraction] at hc
      cases hc
    · rw [hfraction] at hc
      rcases List.mem_cons.1 hc with hc | hc
      · exact Or.inr hc
      · exact Or.inl (ds.2 c hc)

/-- The characters behind the point are the decimal places. -/
theorem isLong_of_unsigned (hsign : n.sign = .absent) (hexponent : n.exponent = none) :
    IsLong n.text ↔ 3 < n.fractionDigits.length := by
  have hwhole : ∀ c ∈ n.whole.1, decide (c ≠ '.') = true := by
    intro c hc
    have hdigit := n.whole.2 c hc
    refine decide_eq_true ?_
    rintro rfl
    cases hdigit
  rw [IsLong, text_of_unsigned hsign hexponent, List.dropWhile_append_of_pos hwhole,
    Numeral.fractionDigits]
  rcases n.fraction with _ | ds
  · show _ ∧ 3 < 0 ↔ 3 < 0
    omega
  · show '.' ∈ n.whole.1 ++ '.' :: ds.1 ∧ 3 < ds.1.length ↔ 3 < ds.1.length
    simp

end Unsigned

/-- **Amounts are accepted** with the number of cores that they say. -/
theorem cpuToCores_of_isAmount (h : IsAmount l x) : cpuToCores l = .ok (.finite x) := by
  rcases h with ⟨ds, hne, rfl, rfl⟩ | ⟨n, hsign, hexponent, hlength, rfl, rfl⟩
  · have hdrop : (ds.1 ++ ['m']).dropLast = ds.1 := List.dropLast_concat
    have hmarked : IsMarked (ds.1 ++ ['m']) := by
      refine ⟨?_, ?_, List.getLast?_concat⟩
      · rwa [hdrop]
      · rw [hdrop]
        exact fun c hc ↦ isDecimal_of_isDigit (ds.2 c hc)
    rw [cpuToCores_of_isMarked hmarked, hdrop,
      map_readAs_of_plain fun c hc ↦ Or.inl (ds.2 c hc)]
  · have hchars : ∀ c ∈ n.text, c.isDigit = true ∨ c = '.' :=
      fun c hc ↦ mem_text_of_unsigned hsign hexponent hc
    have hmarked : ¬ IsMarked n.text := by
      rintro ⟨-, -, hlast⟩
      rcases hchars 'm' (List.mem_of_getLast? hlast) with hdigit | hpoint
      · cases hdigit
      · cases hpoint
    refine (cpuToCores_eq_ok_iff hmarked).2 ⟨?_, ?_⟩
    · obtain ⟨hunpad, hplain⟩ := floatPadded_of_plain fun c hc ↦ (hchars c hc).imp_right Or.inl
      rw [floatPadded, hunpad]
      exact floatOf_eq_finite.2 ⟨n, hplain, rfl⟩
    · rw [isLong_of_unsigned hsign hexponent]
      omega

/-- Amounts are made of these characters. -/
theorem IsAmount.plain (h : IsAmount l x) : ∀ c ∈ l, IsPlainChar c := by
  rcases h with ⟨ds, -, rfl, -⟩ | ⟨n, hsign, hexponent, -, rfl, -⟩
  · intro c hc
    rcases List.mem_append.1 hc with hc | hc
    · exact Or.inl (ds.2 c hc)
    · exact Or.inr (Or.inr (List.mem_singleton.1 hc))
  · exact fun c hc ↦ (mem_text_of_unsigned hsign hexponent hc).imp_right Or.inl

/-! ### What else is accepted -/

/-- A text of these characters that is read as a number is a numeral without a sign and an exponent. -/
theorem isCores_of_floatPadded (h : ∀ c ∈ l, IsPlainChar c) (hv : floatPadded l = some v)
    (hlong : ¬ IsLong l) : ∃ x, v = .finite x ∧ IsCores l x := by
  have hm : 'm' ∉ l := by
    intro hm
    rw [floatPadded_of_mem hm] at hv
    cases hv
  obtain ⟨hunpad, hplain⟩ := floatPadded_of_plain h
  rw [floatPadded, hunpad] at hv
  obtain ⟨t, ht, hcases⟩ := cases_of_floatOf hv
  obtain rfl : l = t := Option.some.inj (hplain.symm.trans ht)
  have hchars : ∀ c ∈ l, c.isDigit = true ∨ c = '.' := by
    intro c hc
    rcases h c hc with hdigit | hpoint | rfl
    · exact Or.inl hdigit
    · exact Or.inr hpoint
    · exact absurd hc hm
  rcases hcases with ⟨n, rfl, rfl⟩ | ⟨sign, word, rfl, hword⟩
  · have hsign : n.sign = .absent := by
      rcases hs : n.sign with _ | _ | _
      · rfl
      · have hmem : '+' ∈ n.text := by
          rw [Numeral.text, hs]
          exact List.mem_cons_self
        rcases hchars _ hmem with h | h <;> cases h
      · have hmem : '-' ∈ n.text := by
          rw [Numeral.text, hs]
          exact List.mem_cons_self
        rcases hchars _ hmem with h | h <;> cases h
    have hexponent : n.exponent = none := by
      rcases he : n.exponent with _ | e
      · rfl
      · have hmem : e.mark ∈ n.text := by
          rw [Numeral.text, he]
          simp [Exponent.optionText, Exponent.text]
        have hmark := hchars _ hmem
        rcases e.mark_eq with h | h
        · rw [h] at hmark
          rcases hmark with h | h <;> cases h
        · rw [h] at hmark
          rcases hmark with h | h <;> cases h
    rw [isLong_of_unsigned hsign hexponent] at hlong
    exact ⟨n.value, rfl, n, hsign, hexponent, by omega, rfl, rfl⟩
  · -- a word has letters
    obtain ⟨c, hc⟩ : ∃ c, c ∈ word := by
      rcases word with _ | ⟨c, word⟩
      · exact absurd hword (by decide)
      · exact ⟨c, List.mem_cons_self⟩
    have hletters : "infinityanan".toList.all (fun d ↦ 97 ≤ d.toNat) = true := by decide
    have hletter := of_decide_eq_true
      (List.all_eq_true.1 hletters _ (toLower_mem_of_numberWords hword hc))
    have hsmall : c.toNat ≤ 57 := by
      rcases hchars c (List.mem_append_right _ hc) with hdigit | rfl
      · exact (toNat_of_isDigit hdigit).2
      · decide
    rcases eq_or_of_toLower (Eq.refl c.toLower) with h | h
    · rw [← h] at hletter
      omega
    · omega

/-- Texts of these characters are accepted as amounts only. -/
theorem isAmount_of_plain (h : ∀ c ∈ l, IsPlainChar c) (hv : cpuToCores l = .ok v) :
    ∃ x, v = .finite x ∧ IsAmount l x := by
  by_cases hmarked : IsMarked l
  · obtain ⟨hne, hds, hlast⟩ := id hmarked
    have hplain : ∀ c ∈ l.dropLast, IsPlainChar c :=
      fun c hc ↦ h c (List.dropLast_subset l hc)
    have hdigits : ∀ c ∈ l.dropLast, c.isDigit = true := by
      intro c hc
      have hread := isDigit_readAs (hds c hc)
      rwa [readAs_of_isPlainChar (hplain c hc)] at hread
    rw [cpuToCores_of_isMarked hmarked, map_readAs_of_plain hplain] at hv
    refine ⟨_, (Except.ok.inj hv).symm, Or.inl ⟨⟨l.dropLast, hdigits⟩, hne, ?_, rfl⟩⟩
    exact (List.dropLast_append_getLast? 'm' hlast).symm
  · obtain ⟨hfloat, hlong⟩ := (cpuToCores_eq_ok_iff hmarked).1 hv
    obtain ⟨x, hx, hcores⟩ := isCores_of_floatPadded h hfloat hlong
    exact ⟨x, hx, Or.inr hcores⟩

/-- **The grammar is met** by the texts of digits, points and `m`, and by those that are not read. -/
theorem meetsGrammar_iff : MeetsGrammar l ↔ (∀ c ∈ l, IsPlainChar c) ∨ ¬ Reads l := by
  constructor
  · rintro ⟨hok, -⟩
    by_cases hreads : Reads l
    · obtain ⟨v, hv⟩ := exists_of_reads hreads
      obtain ⟨x, -, hamount⟩ := hok v hv
      exact Or.inl hamount.plain
    · exact Or.inr hreads
  · intro h
    refine ⟨fun v hv ↦ ?_, fun x ↦ cpuToCores_of_isAmount⟩
    exact isAmount_of_plain (h.resolve_right (not_not.2 (reads_of_eq_ok hv))) hv

/-! ### Requests and limits -/

/-- A letter occurs in the text, small or capital. -/
def HasLetter (l : List Char) (c : Char) : Prop := ∃ d ∈ l, d.toLower = c

/-- A numeral with a minus before it and with other digits than zeros. -/
def IsNegative (l : List Char) : Prop :=
  ∃ n : Numeral, plain (unpad l) = some n.text ∧ n.sign = .minus ∧
    digitsValue (n.whole.1 ++ n.fractionDigits) ≠ 0

/-- The amount is no larger than the limit. -/
def AtMost (x : ℚ) : FloatValue → Prop
  | .finite y => x ≤ y
  | .infinite negative => negative = false
  | .nan => False

theorem readAs_cases (c : Char) :
    readAs c = c ∨ readAs c = ' ' ∨ (readAs c).isDigit = true ∨ readAs c = '?' := by
  by_cases hascii : c.toNat < 127
  · exact Or.inl (readAs_of_ascii hascii)
  · right
    rw [readAs, if_neg hascii]
    by_cases hspace : isSpace c = true
    · exact Or.inl (if_pos hspace)
    · right
      rw [if_neg hspace]
      rcases hdigit : decimalDigit c with _ | d
      · exact Or.inr rfl
      · have hread := isDigit_readAs (c := c) (by rw [isDecimal, hdigit]; rfl)
        rw [readAs, if_neg hascii, if_neg hspace, hdigit] at hread
        exact Or.inl hread

theorem toLower_of_isDigit {c : Char} (h : c.isDigit = true) : c.toLower = c := by
  have hcode := toNat_of_isDigit h
  refine dif_neg fun hupper ↦ ?_
  have hlow : 65 ≤ c.toNat := hupper.1
  omega

/-- A letter is read where it stands, and is read nowhere else. -/
theorem hasLetter_iff {t : List Char} {c : Char} (ht : plain (unpad l) = some t)
    (hc : c = 'n' ∨ c = 'a') : HasLetter l c ↔ HasLetter t c := by
  constructor
  · rintro ⟨d, hd, hlower⟩
    have hcode : d.toNat < 127 ∧ 65 ≤ d.toNat := by
      rcases eq_or_of_toLower hlower with rfl | hcode
      · rcases hc with rfl | rfl <;> decide
      · rcases hc with rfl | rfl
        · have : 'n'.toNat = 110 := rfl
          omega
        · have : 'a'.toNat = 97 := rfl
          omega
    have hread : readAs d = d := readAs_of_ascii hcode.1
    have hpadding : isPadding d = false := by
      simp only [isPadding, List.mem_cons, List.not_mem_nil, or_false, Bool.or_eq_false_iff,
        Bool.and_eq_false_iff, decide_eq_false_iff_not]
      omega
    have hplain : readAs d ≠ '_' := by
      rw [hread]
      rintro rfl
      rcases hc with rfl | rfl <;> cases hlower
    refine ⟨d, ?_, hlower⟩
    rw [← hread]
    exact mem_of_plain ht (mem_unpad hd hpadding) hplain
  · rintro ⟨d, hd, hlower⟩
    obtain ⟨-, rfl⟩ := plain_eq_some.1 ht
    obtain ⟨e, he, rfl⟩ := List.mem_map.1 (List.mem_filter.1 hd).1
    have hmem : e ∈ l :=
      (List.dropWhile_sublist isPadding).subset
        ((List.rdropWhile_prefix isPadding _).subset he)
    rcases readAs_cases e with h | h | h | h
    · exact ⟨e, hmem, by rwa [← h]⟩
    · rw [h] at hlower
      rcases hc with rfl | rfl <;> cases hlower
    · rw [toLower_of_isDigit h] at hlower
      rw [hlower] at h
      rcases hc with rfl | rfl <;> cases h
    · rw [h] at hlower
      rcases hc with rfl | rfl <;> cases hlower

/-- There are no such letters in numerals. -/
theorem not_hasLetter_text (n : Numeral) {c : Char} (hc : c = 'n' ∨ c = 'a') :
    ¬ HasLetter n.text c := by
  rintro ⟨d, hd, hlower⟩
  rcases n.mem_text hd with hdigit | hmark
  · rw [toLower_of_isDigit hdigit] at hlower
    rw [hlower] at hdigit
    rcases hc with rfl | rfl <;> cases hdigit
  · have hmarks : ['+', '-', '.', 'e', 'E'].all
        (fun d ↦ d.toLower != 'n' && d.toLower != 'a') = true := by decide
    have hother := List.all_eq_true.1 hmarks d hmark
    rw [hlower] at hother
    rcases hc with rfl | rfl <;> cases hother

/-- A letter of a signed word is one of the word. -/
theorem hasLetter_word {sign : Sign} {word : List Char} {c : Char} (hc : c = 'n' ∨ c = 'a') :
    HasLetter (sign.text ++ word) c ↔ c ∈ word.map Char.toLower := by
  constructor
  · rintro ⟨d, hd, rfl⟩
    rcases List.mem_append.1 hd with hd | hd
    · have hsigns : sign.text.all (fun d ↦ d.toLower != 'n' && d.toLower != 'a') = true := by
        cases sign <;> rfl
      have hother := List.all_eq_true.1 hsigns d hd
      rcases hc with h | h <;> rw [h] at hother <;> cases hother
    · exact List.mem_map_of_mem hd
  · intro h
    obtain ⟨d, hd, hlower⟩ := List.mem_map.1 h
    exact ⟨d, List.mem_append_right _ hd, hlower⟩

/-- The words for what is infinite or no number are told by their letters. -/
theorem hasLetter_of_floatPadded (hv : floatPadded l = some v) :
    (HasLetter l 'n' ↔ ∀ x, v ≠ .finite x) ∧ (HasLetter l 'a' ↔ v = .nan) := by
  rcases v with x | negative | _
  · obtain ⟨n, hplain, -⟩ := floatOf_eq_finite.1 hv
    have hno : ∀ {c : Char}, c = 'n' ∨ c = 'a' → ¬ HasLetter l c := fun hc h ↦
      not_hasLetter_text n hc ((hasLetter_iff hplain hc).1 h)
    refine ⟨iff_of_false (hno (Or.inl rfl)) fun h ↦ h x rfl,
      iff_of_false (hno (Or.inr rfl)) ?_⟩
    exact fun h ↦ by cases h
  · obtain ⟨sign, word, hplain, hword⟩ := floatOf_eq_infinite.1 ⟨negative, hv⟩
    constructor
    · refine iff_of_true ?_ fun x h ↦ by cases h
      refine (hasLetter_iff hplain (Or.inl rfl)).2 ((hasLetter_word (Or.inl rfl)).2 ?_)
      rcases hword with hword | hword <;> rw [hword] <;> decide
    · refine iff_of_false ?_ fun h ↦ by cases h
      rw [hasLetter_iff hplain (Or.inr rfl), hasLetter_word (Or.inr rfl)]
      rcases hword with hword | hword <;> rw [hword] <;> decide
  · obtain ⟨sign, word, hplain, hword⟩ := floatOf_eq_nan hv
    constructor
    · refine iff_of_true ?_ fun x h ↦ by cases h
      refine (hasLetter_iff hplain (Or.inl rfl)).2 ((hasLetter_word (Or.inl rfl)).2 ?_)
      rw [hword]
      decide
    · refine iff_of_true ?_ rfl
      refine (hasLetter_iff hplain (Or.inr rfl)).2 ((hasLetter_word (Or.inr rfl)).2 ?_)
      rw [hword]
      decide

/-- Digits and an `m` have no other letters. -/
theorem not_hasLetter_of_isMarked {c : Char} (h : IsMarked l) (hc : c = 'n' ∨ c = 'a') :
    ¬ HasLetter l c := by
  rintro ⟨d, hd, hlower⟩
  obtain ⟨-, hds, hlast⟩ := h
  rw [← List.dropLast_append_getLast? 'm' hlast] at hd
  rcases List.mem_append.1 hd with hd | hd
  · have hdecimal := hds d hd
    have hdecided : isDecimal 'n' = false ∧ isDecimal 'N' = false ∧ isDecimal 'a' = false ∧
        isDecimal 'A' = false := by decide
    obtain ⟨hn, hn', ha, ha'⟩ := hdecided
    rcases eq_or_of_toLower hlower with rfl | hcode
    · rcases hc with rfl | rfl
      · rw [hn] at hdecimal
        cases hdecimal
      · rw [ha] at hdecimal
        cases hdecimal
    · rcases hc with rfl | rfl
      · have hN : d = 'N' := Char.toNat_inj.1 (by have : 'n'.toNat = 110 := rfl
                                                  have : 'N'.toNat = 78 := rfl
                                                  omega)
        rw [hN, hn'] at hdecimal
        cases hdecimal
      · have hA : d = 'A' := Char.toNat_inj.1 (by have : 'a'.toNat = 97 := rfl
                                                  have : 'A'.toNat = 65 := rfl
                                                  omega)
        rw [hA, ha'] at hdecimal
        cases hdecimal
  · obtain rfl := List.mem_singleton.1 hd
    rcases hc with rfl | rfl <;> cases hlower

/-- The sign of a numeral is that of its number. -/
theorem value_neg_iff (n : Numeral) :
    n.value < 0 ↔ n.sign = .minus ∧ digitsValue (n.whole.1 ++ n.fractionDigits) ≠ 0 := by
  have hscale : 0 < n.exponent.elim (1 : ℚ) Exponent.scale := by
    rcases n.exponent with _ | e
    · exact one_pos
    · show 0 < e.scale
      rw [Exponent.scale]
      split <;> positivity
  have hpow : (0 : ℚ) < 10 ^ n.fractionDigits.length := by positivity
  rw [Numeral.value]
  generalize digitsValue (n.whole.1 ++ n.fractionDigits) = d
  have hsize : (0 : ℚ) ≤ (d : ℚ) / 10 ^ n.fractionDigits.length *
      n.exponent.elim 1 Exponent.scale := by positivity
  rcases n.sign with _ | _ | _
  · exact iff_of_false (not_lt.2 hsize) fun h ↦ by cases h.1
  · exact iff_of_false (not_lt.2 hsize) fun h ↦ by cases h.1
  · show -_ < 0 ↔ _
    rw [neg_lt_zero]
    constructor
    · intro h
      refine ⟨rfl, ?_⟩
      rintro rfl
      simp at h
    · rintro ⟨-, hd⟩
      have : (0 : ℚ) < d := by exact_mod_cast Nat.pos_of_ne_zero hd
      positivity

/-- What the text of an amount that is accepted says of the amount. -/
theorem amount_of_eq_ok (hv : cpuToCores l = .ok v) :
    (HasLetter l 'n' ↔ ∀ x, v ≠ .finite x) ∧ (HasLetter l 'a' ↔ v = .nan) ∧
      ∀ x, v = .finite x → (x < 0 ↔ IsNegative l) := by
  by_cases hmarked : IsMarked l
  · rw [cpuToCores_of_isMarked hmarked] at hv
    obtain rfl := Except.ok.inj hv
    refine ⟨?_, ?_, fun x hx ↦ ?_⟩
    · exact iff_of_false (not_hasLetter_of_isMarked hmarked (Or.inl rfl)) fun h ↦ h _ rfl
    · refine iff_of_false (not_hasLetter_of_isMarked hmarked (Or.inr rfl)) fun h ↦ ?_
      cases h
    · obtain rfl := FloatValue.finite.inj hx
      refine iff_of_false (not_lt.2 (by positivity)) ?_
      rintro ⟨n, hplain, -, -⟩
      have hnone := floatPadded_of_mem (List.mem_of_getLast? hmarked.2.2)
      rw [floatPadded, floatOf_eq_finite.2 ⟨n, hplain, rfl⟩] at hnone
      cases hnone
  · obtain ⟨hfloat, -⟩ := (cpuToCores_eq_ok_iff hmarked).1 hv
    obtain ⟨hn, ha⟩ := hasLetter_of_floatPadded hfloat
    refine ⟨hn, ha, ?_⟩
    rintro x rfl
    obtain ⟨n, hplain, rfl⟩ := floatOf_eq_finite.1 hfloat
    rw [value_neg_iff]
    constructor
    · exact fun h ↦ ⟨n, hplain, h⟩
    · rintro ⟨n', hplain', hnegative⟩
      have hsame : n' = n := by
        have htext := Option.some.inj (hplain'.symm.trans hplain)
        exact Option.some.inj ((Numeral.parse_eq_some.2 rfl).symm.trans
          (Numeral.parse_eq_some.2 htext.symm))
      rwa [← hsame]

/-- **The comparison of accepted amounts** says that the requests are amounts within the limits, unless
the texts say that they are negative, infinite or no numbers. -/
theorem requests_iff {limits requests : FloatValue} {l' : List Char}
    (hlimits : cpuToCores l = .ok limits) (hrequests : cpuToCores l' = .ok requests)
    (h : floatLT limits requests = false) :
    (∃ x, requests = .finite x ∧ 0 ≤ x ∧ AtMost x limits) ↔
      ¬ HasLetter l' 'n' ∧ ¬ IsNegative l' ∧ ¬ HasLetter l 'a' := by
  obtain ⟨-, hnan, -⟩ := amount_of_eq_ok hlimits
  obtain ⟨hword, -, hnegative⟩ := amount_of_eq_ok hrequests
  rw [hnan, hword]
  constructor
  · rintro ⟨x, rfl, hx, hle⟩
    refine ⟨fun hno ↦ hno x rfl, fun hneg ↦ ?_, ?_⟩
    · exact absurd ((hnegative x rfl).2 hneg) (not_lt.2 hx)
    · rintro rfl
      exact hle
  · rintro ⟨hfinite, hneg, hnumber⟩
    obtain ⟨x, hx⟩ := not_forall_not.1 hfinite
    refine ⟨x, hx, not_lt.1 fun hlt ↦ hneg ((hnegative x hx).1 hlt), ?_⟩
    rw [hx] at h
    rcases limits with y | negative | _
    · exact not_lt.1 (of_decide_eq_false h)
    · exact h
    · exact absurd rfl hnumber

/-- **Amounts of CPU** are read as they are documented from the texts of digits, points and `m`, and from
those that are not read, and nothing else is. Of requests that are accepted nothing but their texts, and
those of the limits, say that they are amounts within the limits. -/
theorem quantities_accepted (l : List Char) (numerals : Numerals)
    (cpu memory cpu' memory' : String) (limits requests : FloatValue × ℤ) :
    (MeetsGrammar l ↔ (∀ c ∈ l, IsPlainChar c) ∨ ¬ Reads l) ∧
      (validateQuantityText numerals cpu memory = .ok limits →
        validateQuantityText numerals cpu' memory' = .ok requests →
        validateResources limits requests = .ok () →
        ((∃ x, requests.1 = .finite x ∧ 0 ≤ x ∧ AtMost x limits.1) ↔
          ¬ HasLetter cpu'.toList 'n' ∧ ¬ IsNegative cpu'.toList ∧ ¬ HasLetter cpu.toList 'a')) := by
  refine ⟨meetsGrammar_iff, ?_⟩
  intro hlimits hrequests hvalid
  obtain ⟨cores, hcores, hlimits⟩ := bind_eq_ok.1 hlimits
  obtain ⟨bytes, -, hlimits⟩ := bind_eq_ok.1 hlimits
  obtain ⟨cores', hcores', hrequests⟩ := bind_eq_ok.1 hrequests
  obtain ⟨bytes', -, hrequests⟩ := bind_eq_ok.1 hrequests
  obtain rfl := Except.ok.inj hlimits
  obtain rfl := Except.ok.inj hrequests
  refine requests_iff hcores hcores' ?_
  rw [validateResources] at hvalid
  split_ifs at hvalid with hcpu
  exact Bool.eq_false_of_not_eq_true hcpu

section Samples

/-- How 1024 bytes are read. -/
private def kibibyte : Numerals := ⟨fun _ ↦ [], fun _ ↦ .ok 1024⟩

/-- The numeral of one, with a sign. -/
private def one (sign : Sign) : Numeral :=
  ⟨sign, ⟨['1'], List.forall_mem_singleton.2 rfl⟩, none, none, Or.inl (List.cons_ne_nil _ _)⟩

private theorem value_one (sign : Sign) : (one sign).value = sign.apply 1 := by
  show sign.apply (((1 : ℕ) : ℚ) / 10 ^ 0 * 1) = _
  norm_num

private theorem cpuToCores_one : cpuToCores "1".toList = .ok (.finite 1) :=
  cpuToCores_of_isAmount (Or.inr ⟨one .absent, rfl, rfl, by decide, rfl, (value_one .absent).symm⟩)

private theorem cpuToCores_half : cpuToCores "500m".toList = .ok (.finite (1 / 2)) := by
  have hdigits : ['5', '0', '0'].all isDecimal = true := rfl
  refine cpuToCores_of_isAmount
    (Or.inl ⟨⟨['5', '0', '0'], List.all_eq_true.1 hdigits⟩, List.cons_ne_nil _ _, rfl, ?_⟩)
  show (1 / 2 : ℚ) = (500 : ℕ) / 1000
  norm_num

private theorem cpuToCores_negative : cpuToCores "-1".toList = .ok (.finite (-1)) := by
  refine (cpuToCores_eq_ok_iff ?_).2 ⟨?_, by decide⟩
  · rintro ⟨-, -, hlast⟩
    exact absurd hlast (by decide)
  · exact floatOf_eq_finite.2 ⟨one .minus, by decide, value_one .minus⟩

private theorem validate_cores {text : String} {x : ℚ} (h : cpuToCores text.toList = .ok (.finite x)) :
    validateQuantityText kibibyte text "1024" = .ok (.finite x, 1024) := by
  rw [validateQuantityText, h]
  rfl

/-- Half a core is within a limit of one. -/
theorem quantities_accepted_half :
    ¬ HasLetter "500m".toList 'n' ∧ ¬ IsNegative "500m".toList ∧ ¬ HasLetter "1".toList 'a' := by
  obtain ⟨-, haccepted⟩ := quantities_accepted "500m".toList kibibyte "1" "1024" "500m" "1024"
    (.finite 1, 1024) (.finite (1 / 2), 1024)
  refine (haccepted (validate_cores cpuToCores_one) (validate_cores cpuToCores_half) ?_).1
    ⟨1 / 2, rfl, by norm_num, ?_⟩
  · simp only [validateResources, floatLT]
    norm_num
  · show (1 / 2 : ℚ) ≤ 1
    norm_num

/-- A negative number is read as an amount, and accepted as one that is requested. -/
theorem negative_accepted : ¬ MeetsGrammar "-1".toList ∧
    validateQuantityText kibibyte "1" "1024" = .ok (.finite 1, 1024) ∧
    validateQuantityText kibibyte "-1" "1024" = .ok (.finite (-1), 1024) ∧
    validateResources (.finite 1, 1024) (.finite (-1), 1024) = .ok () := by
  refine ⟨?_, validate_cores cpuToCores_one, validate_cores cpuToCores_negative, ?_⟩
  · rintro ⟨hread, -⟩
    obtain ⟨x, -, hamount⟩ := hread _ cpuToCores_negative
    have hminus := hamount.plain '-' (by decide)
    revert hminus
    unfold IsPlainChar
    decide
  · simp only [validateResources, floatLT]
    norm_num

end Samples

end Nublado.Lab
