import Mathlib.Algebra.Order.Ring.Rat
import Mathlib.Data.List.Chain
import Mathlib.Data.List.DropRight
import Mathlib.Data.Rat.Floor
import Nublado.Foundations.Decimal

/-!
# Numbers as texts

The texts that `int` and `float` read, and the numbers that they stand for. Numbers are exact: nothing
is rounded and nothing overflows, so that a `float` is a rational number, unless it is infinite or not
a number.

* A `Numeral` is a sign, digits, a fraction and an exponent, as they are written. `Numeral.parse` reads
  exactly the texts of numerals (`Numeral.parse_eq_some`).
* Digits of any script are read as those of ASCII, and an underscore may stand between two digits
  (`plain`). What `int` reads, `float` reads as the same number (`floatOf_of_intOf`).
-/

namespace Nublado

/-! ### Characters -/

/-- Whitespace. -/
def isSpace (c : Char) : Bool :=
  decide (c.toNat ∈ [0x9, 0xa, 0xb, 0xc, 0xd, 0x1c, 0x1d, 0x1e, 0x1f, 0x20, 0x85, 0xa0, 0x1680, 0x2000,
    0x2001, 0x2002, 0x2003, 0x2004, 0x2005, 0x2006, 0x2007, 0x2008, 0x2009, 0x200a, 0x2028, 0x2029,
    0x202f, 0x205f, 0x3000])

/-- `text.strip()` -/
def strip (l : List Char) : List Char := (l.dropWhile isSpace).rdropWhile isSpace

/-- The ASCII character that a character is read as in a number. -/
def readAs (c : Char) : Char :=
  if c.toNat < 127 then c
  else if isSpace c then ' '
  else match decimalDigit c with
    | some d => Nat.digitChar d
    | none => '?'

/-- Whether an underscore stands between two digits only. -/
def Grouped (l : List Char) : Prop :=
  List.IsChain (fun a b ↦ (a = '_' → b.isDigit = true) ∧ (b = '_' → a.isDigit = true))
    ('.' :: (l ++ ['.']))

instance (l : List Char) : Decidable (Grouped l) :=
  inferInstanceAs (Decidable (List.IsChain _ _))

/-- The text of a number in ASCII and without underscores, which have to stand between digits. -/
def plain (l : List Char) : Option (List Char) :=
  if Grouped (l.map readAs) then some ((l.map readAs).filter (· ≠ '_')) else none

/-! ### Whitespace -/

/-- There is nothing but whitespace. -/
def Blank (l : List Char) : Prop := ∀ c ∈ l, isSpace c = true

theorem Blank.append {l l' : List Char} (h : Blank l) (h' : Blank l') : Blank (l ++ l') :=
  List.forall_mem_append.2 ⟨h, h'⟩

/-- Whitespace is taken off at both ends. -/
theorem exists_strip (l : List Char) : ∃ a b, Blank a ∧ Blank b ∧ l = a ++ (strip l ++ b) := by
  refine ⟨l.takeWhile isSpace, (l.dropWhile isSpace).rtakeWhile isSpace,
    fun c hc ↦ List.mem_takeWhile_imp hc, fun c hc ↦ List.mem_rtakeWhile_imp hc, ?_⟩
  rw [strip, List.rdropWhile_append_rtakeWhile, List.takeWhile_append_dropWhile]

/-- **Whitespace is taken off** as far as it reaches. -/
theorem strip_eq {a l b : List Char} (ha : Blank a) (hb : Blank b)
    (hhead : ∃ c ∈ l.head?, isSpace c = false) (hlast : ∃ c ∈ l.getLast?, isSpace c = false) :
    strip (a ++ (l ++ b)) = l := by
  obtain ⟨c, hc, hspace⟩ := hhead
  obtain ⟨d, hd, hspace'⟩ := hlast
  have hfront : (a ++ (l ++ b)).dropWhile isSpace = l ++ b := by
    induction a with
    | nil =>
      rcases l with _ | ⟨c', l⟩
      · cases hc
      · obtain rfl : c' = c := Option.some.inj hc
        exact List.dropWhile_cons_of_neg (by simp [hspace])
    | cons x a ih =>
      obtain ⟨hx, ha⟩ := List.forall_mem_cons.1 ha
      rw [List.cons_append, List.dropWhile_cons_of_pos hx]
      exact ih ha
  rw [strip, hfront]
  clear hfront
  induction b using List.reverseRecOn with
  | nil =>
    rcases List.eq_nil_or_concat l with rfl | ⟨l, d', rfl⟩
    · cases hd
    · rw [List.concat_eq_append, List.getLast?_concat] at hd
      obtain rfl : d' = d := Option.some.inj hd
      rw [List.append_nil, List.concat_eq_append]
      exact List.rdropWhile_concat_neg _ _ _ (by simp [hspace'])
  | append_singleton b x ih =>
    obtain ⟨hb, hx⟩ := List.forall_mem_append.1 hb
    rw [← List.append_assoc, List.rdropWhile_concat_pos _ _ _ (hx x List.mem_cons_self)]
    exact ih hb

/-! ### Numerals -/

/-- The sign in front of a number. -/
inductive Sign
  | absent | plus | minus
  deriving DecidableEq

namespace Sign

/-- How a sign is written. -/
def text : Sign → List Char
  | absent => []
  | plus => ['+']
  | minus => ['-']

/-- The number with a sign in front of it. -/
def apply {α : Type} [Neg α] : Sign → α → α
  | minus, x => -x
  | _, x => x

/-- Read a sign. -/
def take : List Char → Sign × List Char
  | '+' :: l => (plus, l)
  | '-' :: l => (minus, l)
  | l => (absent, l)

theorem text_take (l : List Char) : (take l).1.text ++ (take l).2 = l := by
  unfold take
  split <;> rfl

/-- A sign is read in front of what starts with none. -/
theorem take_append (s : Sign) {l : List Char} (h : ∀ c ∈ l.head?, c ≠ '+' ∧ c ≠ '-') :
    take (s.text ++ l) = (s, l) := by
  cases s with
  | plus => rfl
  | minus => rfl
  | absent =>
    rcases l with _ | ⟨c, l⟩
    · rfl
    · obtain ⟨hplus, hminus⟩ := h c rfl
      show take (c :: l) = _
      unfold take
      split
      · next heq => exact absurd (List.cons.inj heq).1 hplus
      · next heq => exact absurd (List.cons.inj heq).1 hminus
      · rfl

end Sign

/-- A text of digits. -/
abbrev Digits := { l : List Char // ∀ c ∈ l, c.isDigit = true }

namespace Digits

/-- Read digits. -/
def take (l : List Char) : Digits × List Char :=
  (⟨l.takeWhile Char.isDigit, fun _ hc ↦ List.mem_takeWhile_imp hc⟩, l.dropWhile Char.isDigit)

theorem text_take (l : List Char) : (take l).1.1 ++ (take l).2 = l := List.takeWhile_append_dropWhile

/-- Digits are read in front of what starts with none. -/
theorem take_append (ds : Digits) {l : List Char} (h : ∀ c ∈ l.head?, c.isDigit = false) :
    take (ds.1 ++ l) = (ds, l) := by
  obtain ⟨ds, hds⟩ := ds
  have hall : ∀ m : List Char, (∀ c ∈ m, c.isDigit = true) →
      (m ++ l).takeWhile Char.isDigit = m ∧ (m ++ l).dropWhile Char.isDigit = l := by
    intro m hm
    induction m with
    | nil =>
      rcases l with _ | ⟨c, l⟩
      · exact ⟨rfl, rfl⟩
      · have hc := h c rfl
        exact ⟨by simp [hc], by simp [hc]⟩
    | cons c m ih =>
      obtain ⟨hc, hm⟩ := List.forall_mem_cons.1 hm
      obtain ⟨htake, hdrop⟩ := ih hm
      rw [List.cons_append, List.takeWhile_cons_of_pos hc, List.dropWhile_cons_of_pos hc, htake]
      exact ⟨rfl, hdrop⟩
  obtain ⟨htake, hdrop⟩ := hall ds hds
  exact Prod.ext (Subtype.ext htake) hdrop

end Digits

/-- An exponent as it is written. -/
structure Exponent where
  mark : Char
  mark_eq : mark = 'e' ∨ mark = 'E'
  sign : Sign
  digits : Digits
  ne_nil : digits.1 ≠ []

/-- A numeral as it is written: a sign, digits, and what may follow them. -/
structure Numeral where
  sign : Sign
  whole : Digits
  fraction : Option Digits
  exponent : Option Exponent
  ne_nil : whole.1 ≠ [] ∨ ∃ ds ∈ fraction, ds.1 ≠ []

namespace Exponent

def text (e : Exponent) : List Char := e.mark :: (e.sign.text ++ e.digits.1)

/-- What the exponent multiplies a number by. -/
def scale (e : Exponent) : ℚ :=
  match e.sign with
  | .minus => 1 / 10 ^ digitsValue e.digits.1
  | _ => 10 ^ digitsValue e.digits.1

/-- Read an exponent, after which nothing follows. -/
def parse : List Char → Option (Option Exponent)
  | [] => some none
  | mark :: l =>
    let (sign, ds) := Sign.take l
    if h : (mark = 'e' ∨ mark = 'E') ∧ ds ≠ [] ∧ ds.all Char.isDigit = true then
      some (some ⟨mark, h.1, sign, ⟨ds, List.all_eq_true.1 h.2.2⟩, h.2.1⟩)
    else none

/-- What is written of an exponent that may be left out. -/
def optionText (e : Option Exponent) : List Char := e.elim [] text

/-- **Exponents are read as they are written.** -/
theorem parse_eq_some {l : List Char} {e : Option Exponent} :
    parse l = some e ↔ optionText e = l := by
  constructor
  · intro h
    rcases l with _ | ⟨mark, l⟩
    · obtain rfl := Option.some.inj h
      rfl
    · rw [parse] at h
      dsimp only at h
      split at h
      · obtain rfl := Option.some.inj h
        show mark :: ((Sign.take l).1.text ++ (Sign.take l).2) = _
        rw [Sign.text_take]
      · cases h
  · rintro rfl
    rcases e with _ | ⟨mark, hmark, sign, ⟨ds, hds⟩, hne⟩
    · rfl
    · have hhead : ∀ c ∈ ds.head?, c ≠ '+' ∧ c ≠ '-' := by
        intro c hc
        have hdigit := hds c (List.mem_of_mem_head? hc)
        constructor
        · rintro rfl
          cases hdigit
        · rintro rfl
          cases hdigit
      show parse (mark :: (sign.text ++ ds)) = _
      rw [parse, Sign.take_append sign hhead]
      exact dif_pos ⟨hmark, hne, List.all_eq_true.2 hds⟩

end Exponent

namespace Numeral

/-- What is written of a fraction that may be left out. -/
def fractionText (fraction : Option Digits) : List Char := fraction.elim [] fun ds ↦ '.' :: ds.1

/-- How a numeral is written. -/
def text (n : Numeral) : List Char :=
  n.sign.text ++ (n.whole.1 ++ (fractionText n.fraction ++ Exponent.optionText n.exponent))

/-- The digits after the point. -/
def fractionDigits (n : Numeral) : List Char := n.fraction.elim [] Subtype.val

/-- The number that a numeral stands for. -/
def value (n : Numeral) : ℚ :=
  n.sign.apply <| (digitsValue (n.whole.1 ++ n.fractionDigits) : ℚ) / 10 ^ n.fractionDigits.length *
    n.exponent.elim 1 Exponent.scale

/-- Read a point and digits. -/
def takeFraction : List Char → Option Digits × List Char
  | '.' :: l => (some (Digits.take l).1, (Digits.take l).2)
  | l => (none, l)

/-- Read a numeral, after which nothing follows. -/
def parse (l : List Char) : Option Numeral :=
  let (sign, l) := Sign.take l
  let (whole, l) := Digits.take l
  let (fraction, l) := takeFraction l
  if h : whole.1 ≠ [] ∨ ∃ ds ∈ fraction, ds.1 ≠ [] then
    (Exponent.parse l).map fun exponent ↦ ⟨sign, whole, fraction, exponent, h⟩
  else none

theorem text_takeFraction (l : List Char) :
    fractionText (takeFraction l).1 ++ (takeFraction l).2 = l := by
  unfold takeFraction
  split
  · next l => exact congrArg ('.' :: ·) (Digits.text_take l)
  · rfl

/-- A fraction is read in front of an exponent. -/
theorem takeFraction_append (fraction : Option Digits) (e : Option Exponent) :
    takeFraction (fractionText fraction ++ Exponent.optionText e) =
      (fraction, Exponent.optionText e) := by
  have hhead : ∀ c ∈ (Exponent.optionText e).head?, c.isDigit = false ∧ c ≠ '.' := by
    rcases e with _ | ⟨mark, hmark, sign, ds, hne⟩
    · intro c hc
      cases hc
    · intro c hc
      obtain rfl : mark = c := Option.some.inj hc
      rcases hmark with rfl | rfl
      · decide
      · decide
  rcases fraction with _ | ds
  · show takeFraction (Exponent.optionText e) = _
    unfold takeFraction
    split
    · next l hl => exact absurd rfl (hhead '.' (by rw [hl]; rfl)).2
    · rfl
  · show (some (Digits.take (ds.1 ++ _)).1, (Digits.take (ds.1 ++ _)).2) = _
    rw [Digits.take_append ds fun c hc ↦ (hhead c hc).1]

/-- **Numerals are read as they are written.** -/
theorem parse_eq_some {l : List Char} {n : Numeral} : parse l = some n ↔ n.text = l := by
  constructor
  · intro h
    rw [parse] at h
    dsimp only at h
    split at h
    · obtain ⟨e, he, rfl⟩ := Option.map_eq_some_iff.1 h
      show (Sign.take l).1.text ++ ((Digits.take (Sign.take l).2).1.1 ++
        (fractionText (takeFraction (Digits.take (Sign.take l).2).2).1 ++
          Exponent.optionText e)) = l
      rw [Exponent.parse_eq_some.1 he, text_takeFraction, Digits.text_take, Sign.text_take]
    · cases h
  · rintro rfl
    obtain ⟨sign, whole, fraction, e, hne⟩ := n
    have hdigit : ∀ c ∈ (fractionText fraction ++ Exponent.optionText e).head?,
        c.isDigit = false := by
      rcases fraction with _ | ds
      · rcases e with _ | ⟨mark, rfl | rfl, sign, ds, hne⟩
        · intro c hc
          cases hc
        · rintro c ⟨⟩
          rfl
        · rintro c ⟨⟩
          rfl
      · rintro c ⟨⟩
        rfl
    have hsign : ∀ c ∈ (whole.1 ++ (fractionText fraction ++ Exponent.optionText e)).head?,
        c ≠ '+' ∧ c ≠ '-' := by
      obtain ⟨_ | ⟨d, whole⟩, hwhole⟩ := whole
      · rcases hne with hne | ⟨ds, rfl, -⟩
        · exact absurd rfl hne
        · rintro c ⟨⟩
          decide
      · rintro c ⟨⟩
        have hd := hwhole d List.mem_cons_self
        constructor
        · rintro rfl
          cases hd
        · rintro rfl
          cases hd
    show parse (sign.text ++ (whole.1 ++ (fractionText fraction ++ Exponent.optionText e))) = _
    rw [parse, Sign.take_append sign hsign]
    dsimp only
    rw [Digits.take_append whole hdigit]
    dsimp only
    rw [takeFraction_append]
    dsimp only
    rw [dif_pos hne, Exponent.parse_eq_some.2 rfl]
    rfl

end Numeral

/-! ### Numbers -/

/-- A `float`, in exact arithmetic. -/
inductive FloatValue
  | finite (x : ℚ)
  | infinite (negative : Bool)
  | nan
  deriving DecidableEq

/-- The words that `float` reads. -/
def wordOf (l : List Char) : Option FloatValue :=
  let (sign, word) := Sign.take l
  let word := word.map Char.toLower
  if word = "inf".toList ∨ word = "infinity".toList then some (.infinite (sign = .minus))
  else if word = "nan".toList then some .nan
  else none

/-- `float(text)`, without whitespace around the number -/
def floatOf (l : List Char) : Option FloatValue :=
  match plain l with
  | none => none
  | some l =>
    match Numeral.parse l with
    | some n => some (.finite n.value)
    | none => wordOf l

/-- `int(text)` -/
def intOf (l : List Char) : Option ℤ :=
  match plain l with
  | none => none
  | some l =>
    let (sign, ds) := Sign.take l
    if ds ≠ [] ∧ ds.all Char.isDigit = true ∧ ds.length ≤ maxIntDigits then
      some (sign.apply (digitsValue ds : ℤ))
    else none

/-- Whitespace that `float` takes off, which is not all that `strip` does. -/
def isPadding (c : Char) : Bool :=
  decide (c.toNat ∈ [0x9, 0xa, 0xb, 0xc, 0xd, 0x20]) || (127 ≤ c.toNat && isSpace c)

/-- The text without the whitespace that `float` takes off. -/
def unpad (l : List Char) : List Char := (l.dropWhile isPadding).rdropWhile isPadding

/-- `float(text)`, where there may be whitespace around the number -/
def floatPadded (l : List Char) : Option FloatValue := floatOf (unpad l)

/-- The text is a numeral, and this is the number. -/
def IsNumeral (l : List Char) (x : ℚ) : Prop :=
  ∃ n : Numeral, plain l = some n.text ∧ n.value = x

/-- The text is a word for an infinite number. -/
def IsInfinity (l : List Char) : Prop :=
  ∃ (sign : Sign) (word : List Char), plain l = some (sign.text ++ word) ∧
    (word.map Char.toLower = "inf".toList ∨ word.map Char.toLower = "infinity".toList)

/-! ### What is read -/

variable {l t : List Char} {x : ℚ}

theorem plain_eq_some : plain l = some t ↔
    Grouped (l.map readAs) ∧ (l.map readAs).filter (· ≠ '_') = t := by
  unfold plain
  split
  · next h => simp [h]
  · next h => simp [h]

/-- **What `float` reads as a finite number** are numerals. -/
theorem floatOf_eq_finite : floatOf l = some (.finite x) ↔ IsNumeral l x := by
  constructor
  · intro h
    unfold floatOf at h
    split at h
    · cases h
    · next t ht =>
      split at h
      · next n hn =>
        refine ⟨n, ?_, FloatValue.finite.inj (Option.some.inj h)⟩
        rw [ht, Numeral.parse_eq_some.1 hn]
      · unfold wordOf at h
        dsimp only at h
        split_ifs at h
        · cases Option.some.inj h
        · cases Option.some.inj h
  · rintro ⟨n, hplain, rfl⟩
    simp only [floatOf, hplain, Numeral.parse_eq_some.2 rfl]

/-- A numeral ends with a digit or the point. -/
theorem Numeral.getLast?_text (n : Numeral) :
    ∃ c, n.text.getLast? = some c ∧ (c.isDigit = true ∨ c = '.') := by
  have hdigits : ∀ (l : List Char) (ds : Digits), ds.1 ≠ [] →
      ∃ c, (l ++ ds.1).getLast? = some c ∧ (c.isDigit = true ∨ c = '.') := by
    intro l ds hne
    refine ⟨ds.1.getLast hne, ?_, Or.inl (ds.2 _ (List.getLast_mem hne))⟩
    rw [List.getLast?_append_of_ne_nil _ hne, List.getLast?_eq_some_getLast hne]
  obtain ⟨sign, whole, fraction, e, hne⟩ := n
  rcases e with _ | e
  · rcases fraction with _ | ds
    · rcases hne with hne | ⟨ds, hds, -⟩
      · show ∃ c, (sign.text ++ (whole.1 ++ ([] ++ []))).getLast? = some c ∧ _
        rw [List.append_nil, List.append_nil]
        exact hdigits sign.text whole hne
      · cases hds
    · show ∃ c, (sign.text ++ (whole.1 ++ ('.' :: ds.1 ++ []))).getLast? = some c ∧ _
      rw [List.append_nil, ← List.append_assoc]
      by_cases hds : ds.1 = []
      · rw [hds]
        exact ⟨'.', by simp, Or.inr rfl⟩
      · rw [List.append_cons]
        exact hdigits _ ds hds
  · show ∃ c, (sign.text ++ (whole.1 ++ (fractionText fraction ++
      (e.mark :: (e.sign.text ++ e.digits.1))))).getLast? = some c ∧ _
    have hsplit : sign.text ++ (whole.1 ++ (fractionText fraction ++
        (e.mark :: (e.sign.text ++ e.digits.1)))) =
        sign.text ++ (whole.1 ++ (fractionText fraction ++ (e.mark :: e.sign.text))) ++
          e.digits.1 := by simp
    rw [hsplit]
    exact hdigits _ e.digits e.ne_nil

/-- A numeral begins with a sign, a digit or the point. -/
theorem Numeral.head?_text (n : Numeral) :
    ∃ c, n.text.head? = some c ∧ (c.isDigit = true ∨ c ∈ ['+', '-', '.']) := by
  obtain ⟨sign, ⟨_ | ⟨d, whole⟩, hwhole⟩, fraction, e, hne⟩ := n
  · rcases hne with hne | ⟨ds, rfl, -⟩
    · exact absurd rfl hne
    · cases sign with
      | absent => exact ⟨'.', rfl, Or.inr (by decide)⟩
      | plus => exact ⟨'+', rfl, Or.inr (by decide)⟩
      | minus => exact ⟨'-', rfl, Or.inr (by decide)⟩
  · cases sign with
    | absent => exact ⟨d, rfl, Or.inl (hwhole d List.mem_cons_self)⟩
    | plus => exact ⟨'+', rfl, Or.inr (by decide)⟩
    | minus => exact ⟨'-', rfl, Or.inr (by decide)⟩

/-- The last letters of the words for an infinite number. -/
theorem getLast?_infinity {word : List Char}
    (h : word.map Char.toLower = "inf".toList ∨ word.map Char.toLower = "infinity".toList) :
    ∃ c, word.getLast? = some c ∧ (c.toLower = 'f' ∨ c.toLower = 'y') := by
  rcases h with h | h
  · have hlast := congrArg List.getLast? h
    rw [List.getLast?_map] at hlast
    obtain ⟨c, hc, hlower⟩ := Option.map_eq_some_iff.1 hlast
    exact ⟨c, hc, Or.inl hlower⟩
  · have hlast := congrArg List.getLast? h
    rw [List.getLast?_map] at hlast
    obtain ⟨c, hc, hlower⟩ := Option.map_eq_some_iff.1 hlast
    exact ⟨c, hc, Or.inr hlower⟩

theorem head?_infinity {word : List Char}
    (h : word.map Char.toLower = "inf".toList ∨ word.map Char.toLower = "infinity".toList) :
    ∃ c, word.head? = some c ∧ c.toLower = 'i' := by
  rcases h with h | h
  · have hfirst := congrArg List.head? h
    rw [List.head?_map] at hfirst
    exact Option.map_eq_some_iff.1 hfirst
  · have hfirst := congrArg List.head? h
    rw [List.head?_map] at hfirst
    exact Option.map_eq_some_iff.1 hfirst

/-- Underscores are neither first nor last. -/
theorem edges_of_plain (h : plain l = some t) :
    t.head? = l.head?.map readAs ∧ t.getLast? = l.getLast?.map readAs := by
  obtain ⟨hgrouped, rfl⟩ := plain_eq_some.1 h
  unfold Grouped at hgrouped
  constructor
  · rcases l with _ | ⟨c, l⟩
    · rfl
    · have hc : readAs c ≠ '_' := by
        intro hc
        have hfirst := (List.isChain_cons_cons.1 hgrouped).1.2 hc
        cases hfirst
      rw [List.map_cons, List.filter_cons_of_pos (by simpa using hc)]
      rfl
  · rcases List.eq_nil_or_concat l with rfl | ⟨l, c, rfl⟩
    · rfl
    · rw [List.concat_eq_append] at hgrouped ⊢
      have hc : readAs c ≠ '_' := by
        intro hc
        rw [List.map_append, List.append_assoc, ← List.cons_append] at hgrouped
        have hlast := (List.isChain_append.1 hgrouped).2.1
        have hpoint := (List.isChain_cons_cons.1 hlast).1.1 hc
        cases hpoint
      rw [List.map_append, List.filter_append, List.map_singleton,
        List.filter_cons_of_pos (by simpa using hc), List.filter_nil, List.getLast?_concat,
        List.getLast?_concat]
      rfl

/-- Whitespace is read as whitespace. -/
theorem readAs_of_isSpace {c : Char} (h : isSpace c = true) : (readAs c).toNat ≤ 32 := by
  by_cases hascii : c.toNat < 127
  · rw [readAs, if_pos hascii]
    simp only [isSpace, decide_eq_true_eq, List.mem_cons, List.not_mem_nil, or_false] at h
    omega
  · rw [readAs, if_neg hascii, if_pos h]
    decide

theorem readAs_of_ascii {c : Char} (h : c.toNat < 127) : readAs c = c := if_pos h

/-- The characters with which numbers begin and end. -/
def IsEdge (l : List Char) : Prop :=
  (∃ c ∈ l.head?, 32 < (readAs c).toNat) ∧
  ∃ c ∈ l.getLast?, 32 < (readAs c).toNat ∧
    ((readAs c).isDigit = true ∨ readAs c ∈ ['.', 'f', 'F', 'y', 'Y'])

theorem toNat_of_isDigit_pos {c : Char} (h : c.isDigit = true) : 32 < c.toNat := by
  have := toNat_of_isDigit h
  omega

/-- **Numerals** have no whitespace around them, and end with a digit or the point. -/
theorem IsNumeral.isEdge (h : IsNumeral l x) : IsEdge l := by
  obtain ⟨n, hplain, -⟩ := h
  obtain ⟨hhead, hlast⟩ := edges_of_plain hplain
  obtain ⟨c, hc, hfirst⟩ := n.head?_text
  obtain ⟨d, hd, hend⟩ := n.getLast?_text
  rw [hc] at hhead
  rw [hd] at hlast
  obtain ⟨c', hc', rfl⟩ := Option.map_eq_some_iff.1 hhead.symm
  obtain ⟨d', hd', rfl⟩ := Option.map_eq_some_iff.1 hlast.symm
  refine ⟨⟨c', hc', ?_⟩, d', hd', ?_, ?_⟩
  · rcases hfirst with hdigit | hmem
    · exact toNat_of_isDigit_pos hdigit
    · simp only [List.mem_cons, List.not_mem_nil, or_false] at hmem
      rcases hmem with h | h | h <;> rw [h] <;> decide
  · rcases hend with hdigit | hpoint
    · exact toNat_of_isDigit_pos hdigit
    · rw [hpoint]
      decide
  · rcases hend with hdigit | hpoint
    · exact Or.inl hdigit
    · exact Or.inr (by rw [hpoint]; decide)

/-- A letter is the lower-case one or the upper-case one. -/
theorem eq_or_of_toLower {c d : Char} (h : c.toLower = d) : c = d ∨ c.toNat + 32 = d.toNat := by
  by_cases hupper : 'A'.val ≤ c.val ∧ c.val ≤ 'Z'.val
  · have hhigh : c.toNat ≤ 90 := hupper.2
    have hcode : c.toLower.toNat = (c.val + 32).toNat := congrArg Char.toNat (dif_pos hupper)
    right
    rw [← h, hcode, UInt32.toNat_add]
    show c.toNat + 32 = (c.toNat + 32) % 2 ^ 32
    omega
  · have hsame : c.toLower = c := dif_neg hupper
    exact Or.inl (hsame.symm.trans h)

/-- **The words for an infinite number** have no whitespace around them, and end with one of these
letters. -/
theorem IsInfinity.isEdge (h : IsInfinity l) : IsEdge l := by
  obtain ⟨sign, word, hplain, hword⟩ := h
  obtain ⟨hhead, hlast⟩ := edges_of_plain hplain
  obtain ⟨c, hc, hlower⟩ := head?_infinity hword
  obtain ⟨d, hd, hend⟩ := getLast?_infinity hword
  have hne : word ≠ [] := by
    rintro rfl
    cases hc
  have hcase : ∀ {c d : Char}, c.toLower = d → ∀ n, d.toNat = n + 32 → c = d ∨ c = Char.ofNat n := by
    intro c d hcd n hn
    refine (eq_or_of_toLower hcd).imp_right fun hcode ↦ ?_
    rw [← Char.ofNat_toNat c, show c.toNat = n by omega]
  rw [List.getLast?_append_of_ne_nil _ hne, hd] at hlast
  obtain ⟨d', hd', hread⟩ := Option.map_eq_some_iff.1 hlast.symm
  have hfinal : readAs d' ∈ ['f', 'F', 'y', 'Y'] := by
    rw [hread]
    rcases hend with hf | hy
    · rcases hcase hf 70 rfl with rfl | rfl <;> decide
    · rcases hcase hy 89 rfl with rfl | rfl <;> decide
  refine ⟨?_, d', hd', ?_, Or.inr (List.mem_cons_of_mem _ hfinal)⟩
  · cases sign with
    | absent =>
      rw [Sign.text, List.nil_append, hc] at hhead
      obtain ⟨c', hc', hread'⟩ := Option.map_eq_some_iff.1 hhead.symm
      refine ⟨c', hc', ?_⟩
      rw [hread']
      rcases hcase hlower 73 rfl with rfl | rfl <;> decide
    | plus =>
      obtain ⟨c', hc', hread'⟩ := Option.map_eq_some_iff.1 hhead.symm
      exact ⟨c', hc', by rw [hread']; decide⟩
    | minus =>
      obtain ⟨c', hc', hread'⟩ := Option.map_eq_some_iff.1 hhead.symm
      exact ⟨c', hc', by rw [hread']; decide⟩
  · simp only [List.mem_cons, List.not_mem_nil, or_false] at hfinal
    rcases hfinal with h | h | h | h <;> rw [h] <;> decide

/-- **What `float` reads as infinite.** -/
theorem floatOf_eq_infinite : (∃ negative, floatOf l = some (.infinite negative)) ↔ IsInfinity l := by
  constructor
  · rintro ⟨negative, h⟩
    unfold floatOf at h
    split at h
    · cases h
    · next t ht =>
      split at h
      · cases Option.some.inj h
      · unfold wordOf at h
        dsimp only at h
        split_ifs at h with hword hnan
        · exact ⟨_, _, by rw [ht, Sign.text_take], hword⟩
        · cases Option.some.inj h
  · rintro ⟨sign, word, hplain, hword⟩
    obtain ⟨c, hc, hlower⟩ := head?_infinity hword
    obtain ⟨d, hd, hend⟩ := getLast?_infinity hword
    have hparse : Numeral.parse (sign.text ++ word) = none := by
      refine Option.eq_none_iff_forall_ne_some.2 fun n hn ↦ ?_
      obtain ⟨d', hd', hdigit⟩ := n.getLast?_text
      have hne : word ≠ [] := by
        rintro rfl
        cases hc
      rw [Numeral.parse_eq_some.1 hn, List.getLast?_append_of_ne_nil _ hne, hd] at hd'
      obtain rfl := Option.some.inj hd'
      have hcode : d.toNat ≤ 57 := by
        rcases hdigit with hdigit | rfl
        · exact (toNat_of_isDigit hdigit).2
        · decide
      rcases hend with h | h
      · rcases eq_or_of_toLower h with rfl | heq
        · revert hcode
          decide
        · have : 'f'.toNat = 102 := rfl
          omega
      · rcases eq_or_of_toLower h with rfl | heq
        · revert hcode
          decide
        · have : 'y'.toNat = 121 := rfl
          omega
    have hsign : ∀ e ∈ word.head?, e ≠ '+' ∧ e ≠ '-' := by
      intro e he
      obtain rfl := Option.some.inj (he.symm.trans hc)
      constructor
      · rintro rfl
        cases hlower
      · rintro rfl
        cases hlower
    refine ⟨sign = .minus, ?_⟩
    simp only [floatOf, hplain, hparse, wordOf, Sign.take_append sign hsign, if_pos hword]

/-- What `float` reads as no number. -/
theorem floatOf_eq_nan (h : floatOf l = some .nan) :
    ∃ (sign : Sign) (word : List Char), plain l = some (sign.text ++ word) ∧
      word.map Char.toLower = "nan".toList := by
  unfold floatOf at h
  split at h
  · cases h
  · next t ht =>
    split at h
    · cases Option.some.inj h
    · unfold wordOf at h
      dsimp only at h
      split_ifs at h with hword hnan
      · cases Option.some.inj h
      · exact ⟨_, _, by rw [ht, Sign.text_take], hnan⟩

/-- **What `int` reads, `float` reads** as the same number. -/
theorem isNumeral_of_intOf {n : ℤ} (h : intOf l = some n) : IsNumeral l n := by
  unfold intOf at h
  split at h
  · cases h
  · next t ht =>
    dsimp only at h
    split at h
    · next hds =>
      obtain ⟨hne, hds, -⟩ := hds
      refine ⟨⟨(Sign.take t).1, ⟨(Sign.take t).2, List.all_eq_true.1 hds⟩, none, none, Or.inl hne⟩,
        ?_, ?_⟩
      · rw [ht]
        show some t = some ((Sign.take t).1.text ++ ((Sign.take t).2 ++ ([] ++ [])))
        rw [List.append_nil, List.append_nil, Sign.text_take]
      · obtain rfl := Option.some.inj h
        show (Sign.take t).1.apply ((digitsValue ((Sign.take t).2 ++ []) : ℚ) / 10 ^ 0 * 1) = _
        rw [List.append_nil, pow_zero, div_one, mul_one]
        rcases (Sign.take t).1 with _ | _ | _
        · show (digitsValue _ : ℚ) = ((digitsValue _ : ℤ) : ℚ)
          rw [Int.cast_natCast]
        · show (digitsValue _ : ℚ) = ((digitsValue _ : ℤ) : ℚ)
          rw [Int.cast_natCast]
        · show -(digitsValue _ : ℚ) = ((-(digitsValue _ : ℤ) : ℤ) : ℚ)
          rw [Int.cast_neg, Int.cast_natCast]
    · cases h

/-- A numeral stands for one number. -/
theorem IsNumeral.unique {y : ℚ} (hx : IsNumeral l x) (hy : IsNumeral l y) : x = y := by
  have heq := (floatOf_eq_finite.2 hx).symm.trans (floatOf_eq_finite.2 hy)
  exact FloatValue.finite.inj (Option.some.inj heq)

/-! ### Digits and padding -/

/-- Whitespace is far from the digits of all scripts. -/
theorem space_or_digit : ∀ z ∈ decimalZeros, ∀ w ∈ [0x9, 0xa, 0xb, 0xc, 0xd, 0x1c, 0x1d, 0x1e, 0x1f,
    0x20, 0x85, 0xa0, 0x1680, 0x2000, 0x2001, 0x2002, 0x2003, 0x2004, 0x2005, 0x2006, 0x2007, 0x2008,
    0x2009, 0x200a, 0x2028, 0x2029, 0x202f, 0x205f, 0x3000], w < z ∨ z + 10 ≤ w := by
  decide

/-- Digits are not whitespace. -/
theorem isPadding_of_isDecimal {c : Char} (h : isDecimal c = true) : isPadding c = false := by
  obtain ⟨d, hd⟩ := Option.isSome_iff_exists.1 h
  obtain ⟨z, hz, -⟩ := Option.map_eq_some_iff.1 hd
  have hrange : z ≤ c.toNat ∧ c.toNat < z + 10 := by simpa using List.find?_some hz
  have hmem := List.mem_of_find?_eq_some hz
  have hnear : ∀ z ∈ decimalZeros, ∀ w ∈ [0x9, 0xa, 0xb, 0xc, 0xd, 0x20], w < z ∨ z + 10 ≤ w := by
    decide
  refine Bool.eq_false_iff.2 fun hpadding ↦ ?_
  have hspace : c.toNat < z ∨ z + 10 ≤ c.toNat := by
    rcases Bool.or_eq_true_iff.1 hpadding with hshort | hlong
    · exact hnear z hmem _ (of_decide_eq_true hshort)
    · exact space_or_digit z hmem _ (of_decide_eq_true (Bool.and_eq_true_iff.1 hlong).2)
  omega

/-- Where there is no whitespace none is taken off. -/
theorem unpad_eq_self (h : ∀ c ∈ l, isPadding c = false) : unpad l = l := by
  have hdrop : l.dropWhile isPadding = l := by
    rcases l with _ | ⟨c, l⟩
    · rfl
    · exact List.dropWhile_cons_of_neg (by simp [h c List.mem_cons_self])
  rw [unpad, hdrop]
  rcases List.eq_nil_or_concat l with rfl | ⟨l, c, rfl⟩
  · rfl
  · rw [List.concat_eq_append] at h ⊢
    exact List.rdropWhile_concat_neg _ _ _ (by simp [h c (by simp)])

/-- A digit of any script is read as one of ASCII. -/
theorem isDigit_readAs {c : Char} (h : isDecimal c = true) : (readAs c).isDigit = true := by
  obtain ⟨d, hd⟩ := Option.isSome_iff_exists.1 h
  obtain ⟨z, hz, hval⟩ := Option.map_eq_some_iff.1 hd
  have hrange : z ≤ c.toNat ∧ c.toNat < z + 10 := by simpa using List.find?_some hz
  by_cases hascii : c.toNat < 127
  · have hzeros : ∀ z ∈ decimalZeros, z = 0x30 ∨ 127 ≤ z := by decide
    have hcode : 48 ≤ c.toNat ∧ c.toNat ≤ 57 := by
      have := hzeros z (List.mem_of_find?_eq_some hz)
      omega
    rw [readAs_of_ascii hascii]
    simp only [Char.isDigit, ge_iff_le, Bool.and_eq_true, decide_eq_true_eq]
    exact hcode
  · have hspace : isSpace c = false := by
      have hpadding := isPadding_of_isDecimal h
      simp only [isPadding, Bool.or_eq_false_iff, Bool.and_eq_false_iff, decide_eq_false_iff_not] at hpadding
      rcases hpadding.2 with hlow | hspace
      · omega
      · exact hspace
    rw [readAs, if_neg hascii, hspace, if_neg Bool.false_ne_true, hd]
    have hdigit : ∀ d < 10, (Nat.digitChar d).isDigit = true := by decide
    exact hdigit d (by omega)

theorem isDecimal_of_isDigit {c : Char} (h : c.isDigit = true) : isDecimal c = true := by
  have hcode := toNat_of_isDigit h
  have hfirst : decimalZeros.find? (fun z ↦ z ≤ c.toNat && c.toNat < z + 10) = some 0x30 := by
    rw [decimalZeros, List.find?_cons_of_pos (by simp; omega)]
  rw [isDecimal, decimalDigit, hfirst]
  rfl

/-- Texts without underscores are read character by character. -/
theorem plain_eq_map (h : ∀ c ∈ l, readAs c ≠ '_') : plain l = some (l.map readAs) := by
  have hno : ∀ c ∈ '.' :: (l.map readAs ++ ['.']), c ≠ '_' := by
    intro c hc
    simp only [List.mem_cons, List.mem_append, List.mem_map, List.not_mem_nil, or_false] at hc
    rcases hc with rfl | ⟨c', hc', rfl⟩ | rfl
    · decide
    · exact h c' hc'
    · decide
  refine plain_eq_some.2 ⟨List.Pairwise.isChain (List.pairwise_of_forall_mem_list ?_), ?_⟩
  · intro a ha b hb
    exact ⟨fun heq ↦ absurd heq (hno a ha), fun heq ↦ absurd heq (hno b hb)⟩
  · refine List.filter_eq_self.2 fun c hc ↦ ?_
    obtain ⟨c', hc', rfl⟩ := List.mem_map.1 hc
    simpa using h c' hc'

/-- **Digits alone** are a number. -/
theorem floatPadded_decimals (hne : l ≠ []) (h : ∀ c ∈ l, isDecimal c = true) :
    floatPadded l = some (.finite (digitsValue (l.map readAs))) := by
  rw [floatPadded, unpad_eq_self fun c hc ↦ isPadding_of_isDecimal (h c hc)]
  have hdigits : ∀ c ∈ l.map readAs, c.isDigit = true := by
    intro c hc
    obtain ⟨c', hc', rfl⟩ := List.mem_map.1 hc
    exact isDigit_readAs (h c' hc')
  have hplain : plain l = some (l.map readAs) := by
    refine plain_eq_map fun c hc heq ↦ ?_
    have hdigit := isDigit_readAs (h c hc)
    rw [heq] at hdigit
    cases hdigit
  refine floatOf_eq_finite.2 ⟨⟨.absent, ⟨l.map readAs, hdigits⟩, none, none, Or.inl (by simpa)⟩, ?_, ?_⟩
  · rw [hplain]
    show _ = some (([] : List Char) ++ (l.map readAs ++ ([] ++ [])))
    simp
  · show (digitsValue (l.map readAs ++ []) : ℚ) / 10 ^ 0 * 1 = _
    simp

/-- The words that are numbers, in lower case. -/
def numberWords : List (List Char) := ["inf".toList, "infinity".toList, "nan".toList]

/-- What `float` reads is a numeral or a word. -/
theorem cases_of_floatOf {v : FloatValue} (h : floatOf l = some v) : ∃ t, plain l = some t ∧
    ((∃ n : Numeral, n.text = t ∧ v = .finite n.value) ∨
      ∃ (sign : Sign) (word : List Char), t = sign.text ++ word ∧
        word.map Char.toLower ∈ numberWords) := by
  unfold floatOf at h
  split at h
  · cases h
  · next t ht =>
    refine ⟨t, ht, ?_⟩
    split at h
    · next n hn =>
      exact Or.inl ⟨n, Numeral.parse_eq_some.1 hn, (Option.some.inj h).symm⟩
    · refine Or.inr ⟨(Sign.take t).1, (Sign.take t).2, (Sign.text_take t).symm, ?_⟩
      unfold wordOf at h
      dsimp only at h
      split_ifs at h with hinf hnan
      · rcases hinf with hinf | hinf
        · rw [hinf]
          decide
        · rw [hinf]
          decide
      · rw [hnan]
        decide

/-- The characters of a numeral. -/
theorem Numeral.mem_text (n : Numeral) {c : Char} (hc : c ∈ n.text) :
    c.isDigit = true ∨ c ∈ ['+', '-', '.', 'e', 'E'] := by
  have hsign : ∀ s : Sign, c ∈ s.text → c ∈ ['+', '-', '.', 'e', 'E'] := by
    intro s hs
    cases s with
    | absent => cases hs
    | plus =>
      obtain rfl := List.mem_singleton.1 hs
      decide
    | minus =>
      obtain rfl := List.mem_singleton.1 hs
      decide
  obtain ⟨sign, whole, fraction, e, hne⟩ := n
  have hcases : c ∈ sign.text ∨ c ∈ whole.1 ∨ c ∈ fractionText fraction ∨
      c ∈ Exponent.optionText e := by
    simpa [text] using hc
  rcases hcases with hc | hc | hc | hc
  · exact Or.inr (hsign sign hc)
  · exact Or.inl (whole.2 c hc)
  · rcases fraction with _ | ds
    · cases hc
    · rcases List.mem_cons.1 hc with rfl | hc
      · exact Or.inr (by decide)
      · exact Or.inl (ds.2 c hc)
  · rcases e with _ | ⟨mark, hmark, sign', ds, hne'⟩
    · cases hc
    · rcases List.mem_cons.1 hc with rfl | hc
      · rcases hmark with rfl | rfl
        · exact Or.inr (by decide)
        · exact Or.inr (by decide)
      · rcases List.mem_append.1 hc with hc | hc
        · exact Or.inr (hsign sign' hc)
        · exact Or.inl (ds.2 c hc)

/-- What is not whitespace is kept. -/
theorem mem_unpad {c : Char} (hc : c ∈ l) (hpadding : isPadding c = false) : c ∈ unpad l := by
  have hdrop : c ∈ l.dropWhile isPadding := by
    rw [← List.takeWhile_append_dropWhile (p := isPadding) (l := l)] at hc
    rcases List.mem_append.1 hc with hc | hc
    · rw [List.mem_takeWhile_imp hc] at hpadding
      cases hpadding
    · exact hc
  rw [unpad]
  have hsplit : (l.dropWhile isPadding).rdropWhile isPadding ++
      (l.dropWhile isPadding).rtakeWhile isPadding = l.dropWhile isPadding :=
    List.rdropWhile_append_rtakeWhile
  rw [← hsplit] at hdrop
  rcases List.mem_append.1 hdrop with hc | hc
  · exact hc
  · rw [List.mem_rtakeWhile_imp hc] at hpadding
    cases hpadding

/-- Characters other than underscores are read where they stand. -/
theorem mem_of_plain {c : Char} (h : plain l = some t) (hc : c ∈ l) (hne : readAs c ≠ '_') :
    readAs c ∈ t := by
  obtain ⟨-, rfl⟩ := plain_eq_some.1 h
  exact List.mem_filter.2 ⟨List.mem_map_of_mem hc, by simpa using hne⟩

/-- The characters of a word. -/
theorem toLower_mem_of_numberWords {word : List Char} (h : word.map Char.toLower ∈ numberWords)
    {c : Char} (hc : c ∈ word) : c.toLower ∈ "infinityanan".toList := by
  have hmem : c.toLower ∈ word.map Char.toLower := List.mem_map_of_mem hc
  have hwords : ∀ w ∈ numberWords, w ⊆ "infinityanan".toList := by decide
  exact hwords _ h hmem

end Nublado
