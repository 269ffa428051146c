import Nublado.Foundations.Decimal
import Nublado.Images.TagOrder

/-!
# Tags of release candidates

What parsing makes of `rA_B_C_rcN` followed by optional parts.

* A `Suffix` is any text that the optional parts of a tag match, with the groups that they capture.
* A `Release` is what all of its candidates have in common; `Release.candidate` is the tag of one.
* `matchStart_candidate`: the expression for candidates captures the four numbers as they stand in
  the tag and of the suffix what it captures by itself. No digit of a number ends up in the suffix,
  since a repetition of digits takes all that it can.
* `fromStr_candidate`: the tag is a candidate, with the version that it names, **provided that every
  number except its own can be converted** (`Release.Convertible`); otherwise it is not one
  (`convertible_of_candidate`). Its own number stays a text.
-/

namespace Nublado.Images

/-! ### Conversion of numerals -/

section Conversion

variable {c : Char} {digits : List Char}

/-- A digit of the first block. -/
theorem decimalDigit_of_isDigit (h : c.isDigit = true) : decimalDigit c = some (c.toNat - 48) := by
  have hc := toNat_of_isDigit h
  have hzero : decimalZeros = 0x30 :: decimalZeros.tail := rfl
  rw [decimalDigit, hzero, List.find?_cons_of_pos]
  · rfl
  · simp only [Bool.and_eq_true, decide_eq_true_eq]
    omega

theorem isDecimal_of_isDigit (h : c.isDigit = true) : isDecimal c = true := by
  rw [isDecimal, decimalDigit_of_isDigit h]
  rfl

theorem isDecimal_of_mem_numeral {n : ℕ} (h : c ∈ numeral n) : isDecimal c = true :=
  isDecimal_of_isDigit (isDigit_of_mem_numeral h)

/-- **Texts of decimal digits convert unless they are too long.** -/
theorem toInt_isSome_iff (h : ∀ c ∈ digits, isDecimal c = true) :
    (toInt digits).isSome ↔ digits.length ≤ maxIntDigits := by
  have hfold : ∀ (digits : List Char) (n : ℕ), (∀ c ∈ digits, isDecimal c = true) →
      (digits.foldl (fun n c ↦ n.bind fun n ↦ (decimalDigit c).map fun d ↦ 10 * n + d)
        (some n)).isSome := by
    intro digits
    induction digits with
    | nil => exact fun _ _ ↦ rfl
    | cons c cs ih =>
      intro n h
      obtain ⟨d, hd⟩ := Option.isSome_iff_exists.1 (h c List.mem_cons_self)
      rw [List.foldl_cons, Option.bind_some, hd]
      exact ih _ fun c hc ↦ h c (List.mem_cons_of_mem _ hc)
  rcases Nat.lt_or_ge maxIntDigits digits.length with hlong | hshort
  · rw [toInt, if_pos hlong]
    simpa using hlong
  · rw [toInt, if_neg (by omega)]
    exact iff_of_true (hfold digits 0 h) hshort

/-- What digits of the first block convert to. -/
theorem toInt_digits (h : ∀ c ∈ digits, c.isDigit = true) (hlength : digits.length ≤ maxIntDigits) :
    toInt digits = some (digitsValue digits) := by
  have hfold : ∀ (digits : List Char) (n : ℕ), (∀ c ∈ digits, c.isDigit = true) →
      digits.foldl (fun n c ↦ n.bind fun n ↦ (decimalDigit c).map fun d ↦ 10 * n + d) (some n) =
        some (Nat.ofDigitChars 10 digits n) := by
    intro digits
    induction digits with
    | nil => exact fun _ _ ↦ rfl
    | cons c cs ih =>
      intro n h
      rw [List.foldl_cons, Option.bind_some, decimalDigit_of_isDigit (h c List.mem_cons_self),
        Nat.ofDigitChars_cons]
      exact ih _ fun c hc ↦ h c (List.mem_cons_of_mem _ hc)
  rw [toInt, if_neg (by omega), hfold _ 0 h]

/-- What a numeral converts to. -/
theorem toInt_numeral {n : ℕ} (h : (numeral n).length ≤ maxIntDigits) :
    toInt (numeral n) = some n := by
  rw [toInt_digits (fun c ↦ isDigit_of_mem_numeral) h, digitsValue_numeral]

end Conversion

namespace RSPImageTag

open Regex

/-! ### Suffixes -/

/-- What may follow the numbers of a tag: any text that the optional parts match, to its end. -/
structure Suffix where
  text : List Char
  /-- What the optional parts capture of it. -/
  data : Captures
  matchStart_eq : TagRegex.optionalParts.matchStart text = some data

namespace Suffix

variable (s : Suffix)

/-- A suffix does not begin with a digit, so that it continues no number. -/
theorem head_not_decimal : ∀ c ∈ s.text.head?, isDecimal c = false := by
  obtain ⟨rest, h⟩ := derives_of_matchStart s.matchStart_eq
  have hunderscore : isDecimal '_' = false := by decide +kernel
  have hdash : isDecimal '-' = false := by decide +kernel
  have hnewline : isDecimal '\n' = false := by decide +kernel
  simp only [TagRegex.optionalParts, TagRegex.cycle, TagRegex.rsp, TagRegex.rest, TagRegex.arch,
    derives_append_iff, derives_opt_iff, derives_text_iff, derives_char_iff] at h
  obtain ⟨_, _, ⟨_, _, ⟨_, _, ⟨_, _, hcycle, hrsp⟩, hrest⟩, harch⟩, heol⟩ := h
  rcases hcycle with ⟨_, _, ⟨_, _, ⟨_, _, ⟨htext, -⟩, -⟩, -⟩, -⟩ | ⟨rfl, -⟩
  · rw [htext]
    simpa using hunderscore
  rcases hrsp with ⟨_, _, ⟨htext, -⟩, -⟩ | ⟨rfl, -⟩
  · rw [htext]
    simpa using hunderscore
  rcases hrest with ⟨_, _, ⟨htext, -⟩, -⟩ | ⟨rfl, -⟩
  · rw [htext]
    simpa using hunderscore
  rcases harch with ⟨_, _, ⟨htext, -⟩, -⟩ | ⟨rfl, -⟩
  · rw [htext]
    simpa using hdash
  rcases (derives_eol_iff.1 heol).1 with htext | htext
  · rw [htext]
    simp
  · rw [htext]
    simpa using hnewline

/-- The groups of the optional parts are the only ones that a suffix has. -/
theorem lookup_eq_none {name : String}
    (h : name ∉ ["cycle", "cbuild", "build", "rest", "arch"]) : s.data.lookup name = none :=
  lookup_matchStart s.matchStart_eq h

/-- The groups that are converted to integers. -/
def numbered : List String := ["cycle", "cbuild", "build"]

/-- They consist of decimal digits. -/
theorem isDecimal_of_lookup {name : String} (hname : name ∈ numbered) {digits : List Char}
    (hdigits : s.data.lookup name = some digits) :
    digits ≠ [] ∧ ∀ c ∈ digits, isDecimal c = true := by
  -- Whether the captured groups with these names do, one optional part after the other.
  let Good : Captures → Prop := fun caps ↦ ∀ pair ∈ caps, pair.1 ∈ numbered →
    pair.2 ≠ [] ∧ ∀ c ∈ pair.2, isDecimal c = true
  have hdigit : ∀ {name : String} {taken rest : List Char} {caps : Captures}, Good caps →
      (∀ c ∈ taken, isDecimal c = true) → 1 ≤ taken.length →
      Good ((name, (taken ++ rest).take ((taken ++ rest).length - rest.length)) :: caps) := by
    intro name taken rest caps hcaps htaken hlength pair hpair hnumbered
    rcases List.mem_cons.1 hpair with rfl | hpair
    · rw [List.length_append, Nat.add_sub_cancel, List.take_left' rfl]
      exact ⟨List.length_pos_iff.1 hlength, htaken⟩
    · exact hcaps pair hpair hnumbered
  have hother : ∀ {name : String} {taken : List Char} {caps : Captures}, Good caps →
      name ∉ numbered → Good ((name, taken) :: caps) := by
    intro name taken caps hcaps hname pair hpair hnumbered
    rcases List.mem_cons.1 hpair with rfl | hpair
    · exact absurd hnumbered hname
    · exact hcaps pair hpair hnumbered
  have hgood : Good s.data := by
    obtain ⟨rest, h⟩ := derives_of_matchStart s.matchStart_eq
    simp only [TagRegex.optionalParts, TagRegex.cycle, TagRegex.rsp, TagRegex.rest, TagRegex.arch,
      TagRegex.digits, derives_append_iff, derives_opt_iff, derives_group_iff, derives_text_iff,
      derives_char_iff, derives_many_iff, derives_eol_iff] at h
    obtain ⟨_, arch, ⟨_, rest, ⟨_, rsp, ⟨_, cycle, hcycle, hrsp⟩, hrest⟩, harch⟩, -, -, hdata⟩ := h
    have hcycle : Good cycle := by
      rcases hcycle with ⟨_, _, ⟨_, _, ⟨_, _, ⟨-, rfl⟩, _, ⟨x, rfl, hx, hxlen, rfl⟩, rfl⟩, rfl, rfl⟩,
        _, ⟨y, rfl, hy, hylen, rfl⟩, rfl⟩ | ⟨-, rfl⟩
      · exact hdigit (hdigit (List.forall_mem_nil _) hx hxlen) hy hylen
      · exact List.forall_mem_nil _
    have hrsp : Good rsp := by
      rcases hrsp with ⟨_, _, ⟨-, rfl⟩, _, ⟨x, rfl, hx, hxlen, rfl⟩, rfl⟩ | ⟨-, rfl⟩
      · exact hdigit hcycle hx hxlen
      · exact hcycle
    have hrest : Good rest := by
      rcases hrest with ⟨_, _, ⟨-, rfl⟩, _, ⟨-, -, -, -, rfl⟩, rfl⟩ | ⟨-, rfl⟩
      · exact hother hrsp (by decide)
      · exact hrsp
    have harch : Good arch := by
      rcases harch with ⟨_, _, ⟨-, rfl⟩, _, ⟨-, -, -, -, rfl⟩, rfl⟩ | ⟨-, rfl⟩
      · exact hother hrest (by decide)
      · exact hrest
    rw [hdata]
    exact harch
  obtain ⟨l, l', hl, -⟩ := List.lookup_eq_some_iff.1 hdigits
  exact hgood (name, digits) (by simp [hl]) hname

end Suffix

/-! ### Releases and their candidates -/

/-- What the candidates of a release have in common. -/
structure Release where
  major : ℕ
  minor : ℕ
  patch : ℕ
  suffix : Suffix

namespace Release

variable (r : Release) (n : ℕ)

/-- What follows the numbers of the release in the tag of its candidate `n`. -/
def pre : List Char := "rc".toList ++ numeral n

/-- `rA_B_C_rcN` and the optional parts -/
def candidateText : List Char :=
  'r' :: (numeral r.major ++ '_' :: (numeral r.minor ++ '_' :: (numeral r.patch ++
    '_' :: (pre n ++ r.suffix.text))))

/-- The tag of candidate `n`. -/
def candidate : String := String.ofList (r.candidateText n)

/-- The groups that matching the tag of candidate `n` captures. -/
def captured : Captures :=
  r.suffix.data ++ [("pre", pre n), ("patch", numeral r.patch), ("minor", numeral r.minor),
    ("major", numeral r.major)]

/-- **The expression for candidates takes a candidate's tag apart.** -/
theorem matchStart_candidate :
    (TagRegex.candidate ++ TagRegex.optionalParts).matchStart (r.candidateText n) =
      some (r.captured n) := by
  have hdigits : ∀ {n : ℕ}, ∀ c ∈ numeral n, isDecimal c = true :=
    fun c hc ↦ isDecimal_of_mem_numeral hc
  have hne : ∀ {n : ℕ}, numeral n ≠ [] := Nat.toDigits_ne_nil
  have hstop : ∀ (cs : List Char), ∀ c ∈ ('_' :: cs).head?, isDecimal c = false := by
    intro cs c hc
    obtain rfl := Option.some.inj hc
    decide +kernel
  rw [matchStart, TagRegex.candidate, candidateText]
  simp only [go_append, go_char]
  refine go_group_all hdigits hne (hstop _) ?_
  rw [go_char]
  refine go_group_all hdigits hne (hstop _) ?_
  rw [go_char]
  refine go_group_all hdigits hne (hstop _) ?_
  rw [go_char]
  show (text "rc" ++ TagRegex.digits).go (pre n ++ r.suffix.text) _ _ = _
  rw [go_append, pre, List.append_assoc, go_text]
  refine takeMany_all hdigits (List.length_pos_iff.2 hne) r.suffix.head_not_decimal ?_
  have htaken : ("rc".toList ++ (numeral n ++ r.suffix.text)).take
      (("rc".toList ++ (numeral n ++ r.suffix.text)).length - r.suffix.text.length) = pre n := by
    rw [← List.append_assoc, List.length_append, Nat.add_sub_cancel, List.take_left' rfl]
    rfl
  show TagRegex.optionalParts.go r.suffix.text (("pre", _) :: _) (fun _ caps ↦ some caps) = _
  rw [htaken, go_eq_matchStart, r.suffix.matchStart_eq]
  rfl

/-- No number that parsing converts is too long. The number of the candidate is not among them. -/
structure Convertible : Prop where
  release : ∀ k ∈ [r.major, r.minor, r.patch], (numeral k).length ≤ maxIntDigits
  suffix : ∀ name ∈ Suffix.numbered, ∀ digits ∈ r.suffix.data.lookup name,
    digits.length ≤ maxIntDigits

/-- The groups of the suffix, as the tag has them. -/
theorem lookup_captured {name : String} (h : name ∉ ["pre", "patch", "minor", "major"]) :
    (r.captured n).lookup name = r.suffix.data.lookup name := by
  have hnone : [("pre", pre n), ("patch", numeral r.patch), ("minor", numeral r.minor),
      ("major", numeral r.major)].lookup name = none := by
    refine List.lookup_eq_none_iff.2 fun pair hpair ↦ bne_iff_ne.2 fun heq ↦ h (heq ▸ ?_)
    exact List.mem_map_of_mem (f := Prod.fst) hpair
  rw [captured, List.lookup_append, hnone, Option.or_none]

/-- The numbers, as the tag has them. -/
theorem lookup_captured_number {name : String}
    (h : name ∉ ["cycle", "cbuild", "build", "rest", "arch"]) :
    (r.captured n).lookup name = [("pre", pre n), ("patch", numeral r.patch),
      ("minor", numeral r.minor), ("major", numeral r.major)].lookup name := by
  rw [captured, List.lookup_append, r.suffix.lookup_eq_none h, Option.none_or]

/-- A number of the suffix converts if it is not too long. -/
theorem optionalInt_isSome_iff {name : String} (hname : name ∈ Suffix.numbered) :
    (optionalInt (r.suffix.data.lookup name)).isSome ↔
      ∀ digits ∈ r.suffix.data.lookup name, digits.length ≤ maxIntDigits := by
  rcases hdigits : r.suffix.data.lookup name with _ | digits
  · simp [optionalInt]
  · obtain ⟨hne, hdecimal⟩ := r.suffix.isDecimal_of_lookup hname hdigits
    obtain ⟨c, cs, rfl⟩ := List.exists_cons_of_ne_nil hne
    rw [optionalInt, Option.isSome_map, toInt_isSome_iff hdecimal]
    simp

/-- A number of the suffix. -/
def number (name : String) : Option ℕ := (optionalInt (r.suffix.data.lookup name)).getD none

/-- A text of the suffix. -/
def word (name : String) : Option String := (r.suffix.data.lookup name).map String.ofList

/-- The version that the tag of candidate `n` names. -/
def version : Version where
  major := r.major
  minor := r.minor
  patch := r.patch
  prerelease := some (String.ofList (pre n))

variable {r}

/-- **What is made of the match** of a candidate's tag. -/
theorem fromMatch_candidate (h : r.Convertible) (parse : List Char → RSPImageTag) :
    ∃ displayName, fromMatch parse .candidate (r.captured n) (r.candidateText n) = some
      { tag := r.candidate n
        imageType := .candidate
        displayName
        version := some (r.version n)
        semantic := true
        cycle := r.number "cycle"
        cycleBuild := r.number "cbuild"
        build := r.number "build"
        architecture := r.word "arch"
        extra := r.word "rest" } := by
  have hnumber : ∀ name ∈ Suffix.numbered,
      optionalInt (r.suffix.data.lookup name) = some (r.number name) := by
    intro name hname
    obtain ⟨k, hk⟩ := Option.isSome_iff_exists.1
      ((r.optionalInt_isSome_iff hname).2 (h.suffix name hname))
    rw [number, hk, Option.getD_some]
  have hyear : (r.captured n).lookup "year" = none := r.lookup_captured_number n (by decide)
  have hmajor : (r.captured n).lookup "major" = some (numeral r.major) :=
    r.lookup_captured_number n (by decide)
  have hminor : (r.captured n).lookup "minor" = some (numeral r.minor) :=
    r.lookup_captured_number n (by decide)
  have hpatch : (r.captured n).lookup "patch" = some (numeral r.patch) :=
    r.lookup_captured_number n (by decide)
  have hpre : (r.captured n).lookup "pre" = some (pre n) :=
    r.lookup_captured_number n (by decide)
  have hdate : calculateDate (r.captured n) = some none := by
    simp only [calculateDate, hyear]
  have hversion : ∃ name, parseVersion .candidate (r.captured n) = some (name, r.version n) := by
    simp only [parseVersion, RSPImageType.isSemantic, hmajor, hminor, hpatch, hpre]
    simp only [BEq.rfl, Bool.or_true, if_true, Option.bind_eq_bind, Option.bind_some,
      Option.getD_some, toInt_numeral (h.release r.major (by simp)),
      toInt_numeral (h.release r.minor (by simp)), toInt_numeral (h.release r.patch (by simp))]
    exact ⟨_, rfl⟩
  obtain ⟨name, hname⟩ := hversion
  refine ⟨name ++ displaySuffix (r.word "cycle") (r.word "cbuild") (r.word "build") (r.word "rest")
    (r.word "arch"), ?_⟩
  simp only [fromMatch, nameAndVersion, hname, hdate, r.lookup_captured n (by decide : "cycle" ∉ _),
    r.lookup_captured n (by decide : "cbuild" ∉ _), r.lookup_captured n (by decide : "build" ∉ _),
    r.lookup_captured n (by decide : "rest" ∉ _), r.lookup_captured n (by decide : "arch" ∉ _),
    hnumber "cycle" (by decide), hnumber "cbuild" (by decide), hnumber "build" (by decide)]
  rfl

/-- A tag of a candidate is not empty. -/
theorem fromStr_eq_fromChars (r : Release) (n : ℕ) : fromStr (r.candidate n) =
    fromChars ((r.candidateText n).length + 1) (r.candidateText n) := by
  have hne : r.candidate n ≠ "" := by
    rw [candidate, candidateText, Ne, String.ext_iff, String.toList_ofList]
    exact List.cons_ne_nil _ _
  rw [fromStr, if_neg hne, candidate, String.toList_ofList]

/-- **What parsing makes of the tag of a candidate.** -/
theorem fromStr_candidate (h : r.Convertible) (n : ℕ) :
    ∃ displayName, fromStr (r.candidate n) =
      { tag := r.candidate n
        imageType := .candidate
        displayName
        version := some (r.version n)
        semantic := true
        cycle := r.number "cycle"
        cycleBuild := r.number "cbuild"
        build := r.number "build"
        architecture := r.word "arch"
        extra := r.word "rest" } := by
  obtain ⟨displayName, hmatch⟩ := fromMatch_candidate n h
    (fromChars (r.candidateText n).length)
  refine ⟨displayName, ?_⟩
  rw [fromStr_eq_fromChars, fromChars, tagRegexes, List.findSome?_cons]
  simp only [r.matchStart_candidate n, Option.bind_some, hmatch, Option.getD_some]

/-- **Only if its numbers can be converted is it a candidate.** -/
theorem convertible_of_candidate {n : ℕ} (h : (fromStr (r.candidate n)).imageType = .candidate) :
    r.Convertible := by
  rw [fromStr_eq_fromChars] at h
  rcases fromChars_cases (r.candidateText n).length (r.candidateText n) with hnone |
    ⟨imageType, regex, data, hmem, hdata, ht⟩
  · rw [hnone] at h
    exact absurd h (by simp [unmatched])
  have hne : imageType ≠ .experimental := by
    rintro rfl
    obtain rfl := eq_of_experimental_mem hmem
    obtain ⟨inner, hinner, hnil, -⟩ := rest_of_experimental hdata
    rw [fromMatch_experimental hinner hnil] at ht
    rw [← Option.some.inj ht] at h
    exact absurd h (by simp)
  obtain rfl : imageType = .candidate := (fromMatch_spec hne ht).1.symm.trans h
  obtain rfl : regex = TagRegex.candidate ++ TagRegex.optionalParts := by
    simpa [tagRegexes] using hmem
  obtain rfl : r.captured n = data :=
    Option.some.inj ((r.matchStart_candidate n).symm.trans hdata)
  have hdecimal : ∀ {k : ℕ} {i : ℕ}, toInt (numeral k) = some i →
      (numeral k).length ≤ maxIntDigits := fun hk ↦
    (toInt_isSome_iff fun c hc ↦ isDecimal_of_mem_numeral hc).1 (Option.isSome_iff_exists.2 ⟨_, hk⟩)
  have hmajor : (r.captured n).lookup "major" = some (numeral r.major) :=
    r.lookup_captured_number n (by decide)
  have hminor : (r.captured n).lookup "minor" = some (numeral r.minor) :=
    r.lookup_captured_number n (by decide)
  have hpatch : (r.captured n).lookup "patch" = some (numeral r.patch) :=
    r.lookup_captured_number n (by decide)
  simp only [fromMatch, if_neg hne, nameAndVersion, Option.bind_eq_bind,
    Option.bind_eq_some_iff] at ht
  obtain ⟨_, hparts, _, hcycle, _, hcycleBuild, _, hbuild, -⟩ := ht
  rw [if_neg (by simp), Option.map_eq_some_iff] at hparts
  obtain ⟨_, hversion, -⟩ := hparts
  simp only [parseVersion, RSPImageType.isSemantic, BEq.rfl, Bool.or_true, if_true, hmajor, hminor,
    hpatch, Option.bind_eq_bind, Option.bind_some, Option.getD_some,
    Option.bind_eq_some_iff] at hversion
  obtain ⟨_, hmajor, _, hminor, _, hpatch, -⟩ := hversion
  have hsuffix : ∀ {name : String} {k : Option ℕ}, name ∈ Suffix.numbered →
      name ∉ ["pre", "patch", "minor", "major"] →
      optionalInt ((r.captured n).lookup name) = some k →
      ∀ digits ∈ r.suffix.data.lookup name, digits.length ≤ maxIntDigits := by
    intro name k hname hother hk
    rw [r.lookup_captured n hother] at hk
    exact (r.optionalInt_isSome_iff hname).1 (Option.isSome_iff_exists.2 ⟨_, hk⟩)
  refine ⟨?_, ?_⟩
  · simpa using ⟨hdecimal hmajor, hdecimal hminor, hdecimal hpatch⟩
  · simp only [Suffix.numbered, List.forall_mem_cons]
    exact ⟨hsuffix (by decide) (by decide) hcycle, hsuffix (by decide) (by decide) hcycleBuild,
      hsuffix (by decide) (by decide) hbuild, List.forall_mem_nil _⟩

end Release

end RSPImageTag

end Nublado.Images
