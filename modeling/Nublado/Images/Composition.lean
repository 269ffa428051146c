import Nublado.Images.Candidates

/-!
# Composing tags

A tag is composed of a base, which names a release, a candidate, a week or a day, and of optional
parts: the SAL cycle, the build of the RSP machinery, additional information and an architecture.
`exp_` may stand before it, any number of times.

* A `Base` and the `Parts` carry what the components of a tag are written with, so that anything that
  can be composed is a tag.
* `matchStart_text`: the expression for the kind of the base **takes a composed tag apart into what it
  was composed of**.
* `head_of_matchStart`, `not_candidate`: no expression before it matches.
* `composed` is the tag that parsing should make of it, provided that the components are `Meaningful`.

## Why no component ends up in another's place

Nothing runs long: a number is followed by no digit, and an architecture by nothing. Additional
information is the one part that is taken as short as possible. Nothing stops short of its end,
because what a shorter one would leave begins with one of its own characters, which neither begins an
architecture nor ends the text.

A part that is absent is not found elsewhere either: the mark of a part is not followed by a digit
unless the part is there (`Parts.not_marks`), which is what `TagExtra.unmarked` is for.
-/

namespace Nublado.Images

namespace RSPImageTag

open Regex

/-! ### Components -/

/-- A number, as it is written in a tag. -/
structure TagNumber where
  text : List Char
  ne_nil : text ≠ []
  isDigit : ∀ c ∈ text, c.isDigit = true

/-- Additional information about an image. It does not begin like another part. -/
structure TagExtra where
  text : List Char
  ne_nil : text ≠ []
  plain : ∀ c ∈ text, c ≠ '-' ∧ c ≠ '\n'
  unmarked : ∀ mark ∈ ["c", "rsp", "rc"], ∀ d rest, text = mark.toList ++ d :: rest →
    isDecimal d = false

/-- An architecture. -/
structure TagArch where
  text : List Char
  ne_nil : text ≠ []
  lowerOrDigit : ∀ c ∈ text, TagRegex.lowerOrDigit c = true

namespace TagNumber

variable (n : TagNumber)

def value : ℕ := digitsValue n.text

/-- It can be converted. -/
def Short : Prop := n.text.length ≤ maxIntDigits

theorem isDecimal : ∀ c ∈ n.text, isDecimal c = true :=
  fun c hc ↦ isDecimal_of_isDigit (n.isDigit c hc)

theorem toInt_text {n : TagNumber} (h : n.Short) : toInt n.text = some n.value :=
  toInt_digits n.isDigit h

theorem short_iff : (toInt n.text).isSome ↔ n.Short := toInt_isSome_iff n.isDecimal

theorem optionalInt_text : optionalInt (some n.text) = (toInt n.text).map some := by
  obtain ⟨c, cs, h⟩ := List.exists_cons_of_ne_nil n.ne_nil
  rw [h, optionalInt]

end TagNumber

/-- The optional parts of a tag. -/
structure Parts where
  /-- The SAL cycle and its build. -/
  cycle : Option (TagNumber × TagNumber) := none
  /-- The build of the RSP machinery. -/
  build : Option TagNumber := none
  extra : Option TagExtra := none
  arch : Option TagArch := none

namespace Parts

variable (p : Parts)

@[grind =] def archText : List Char := p.arch.elim [] fun arch ↦ '-' :: arch.text

@[grind =] def extraText : List Char := p.extra.elim [] fun extra ↦ '_' :: extra.text

@[grind =] def buildText : List Char := p.build.elim [] fun build ↦ "_rsp".toList ++ build.text

@[grind =] def cycleText : List Char :=
  p.cycle.elim [] fun cycle ↦ "_c".toList ++ (cycle.1.text ++ '.' :: cycle.2.text)

/-- The parts, as they follow a base. -/
@[grind =] def text : List Char := p.cycleText ++ (p.buildText ++ (p.extraText ++ p.archText))

@[grind =] def archData : Captures := p.arch.elim [] fun arch ↦ [("arch", arch.text)]

@[grind =] def extraData : Captures := p.extra.elim [] fun extra ↦ [("rest", extra.text)]

@[grind =] def buildData : Captures := p.build.elim [] fun build ↦ [("build", build.text)]

@[grind =] def cycleData : Captures :=
  p.cycle.elim [] fun cycle ↦ [("cbuild", cycle.2.text), ("cycle", cycle.1.text)]

/-- What matching captures of them. -/
@[grind =] def data : Captures := p.archData ++ (p.extraData ++ (p.buildData ++ p.cycleData))

/-- The numbers among them. -/
@[grind =] def numbers : List TagNumber :=
  p.cycle.elim [] (fun cycle ↦ [cycle.1, cycle.2]) ++ p.build.toList

/-! ### What the parts begin with -/

/-- The text begins with a mark and a digit. -/
def Marks (mark : String) (s : List Char) : Prop :=
  ∃ d rest, isDecimal d = true ∧ s = '_' :: (mark.toList ++ d :: rest)

variable {p}

/-- No part continues a number. -/
theorem head_extraText : ∀ c ∈ (p.extraText ++ p.archText).head?, c = '_' ∨ c = '-' := by
  rcases hextra : p.extra with _ | extra
  · rcases harch : p.arch with _ | arch <;> simp [extraText, archText, hextra, harch]
  · simp [extraText, hextra]

theorem head_buildText :
    ∀ c ∈ (p.buildText ++ (p.extraText ++ p.archText)).head?, c = '_' ∨ c = '-' := by
  rcases hbuild : p.build with _ | build
  · simpa [buildText, hbuild] using head_extraText
  · simp [buildText, hbuild]

theorem head_text : ∀ c ∈ p.text.head?, c = '_' ∨ c = '-' := by
  rcases hcycle : p.cycle with _ | cycle
  · simpa [text, cycleText, hcycle] using head_buildText
  · simp [text, cycleText, hcycle]

/-- Characters that begin a part are not digits. -/
theorem not_isDecimal_of_head {s : List Char} (h : ∀ c ∈ s.head?, c = '_' ∨ c = '-') :
    ∀ c ∈ s.head?, isDecimal c = false := by
  have hunderscore : isDecimal '_' = false := by decide +kernel
  have hdash : isDecimal '-' = false := by decide +kernel
  intro c hc
  rcases h c hc with rfl | rfl
  · exact hunderscore
  · exact hdash

/-- Additional information does not begin like another part. -/
theorem not_marks_extra {mark : String} (hmark : mark ∈ ["c", "rsp", "rc"]) :
    ¬ Marks mark (p.extraText ++ p.archText) := by
  have hdash : isDecimal '-' = false := by decide +kernel
  have hno : '-' ∉ mark.toList := by
    revert mark
    decide
  -- An architecture is not where a digit of the mark is.
  have harch : ∀ (before : List Char) {rest : List Char} {d : Char}, isDecimal d = true → '-' ∉ before →
      p.archText ≠ before ++ d :: rest := by
    intro before rest d hd hbefore h
    rcases harch : p.arch with _ | arch
    · simp [archText, harch] at h
    · rcases before with _ | ⟨c, before⟩
      · obtain ⟨rfl, -⟩ : '-' = d ∧ arch.text = rest := by simpa [archText, harch] using h
        exact absurd (hdash.symm.trans hd) (by decide)
      · obtain ⟨rfl, -⟩ : '-' = c ∧ arch.text = before ++ d :: rest := by
          simpa [archText, harch] using h
        exact hbefore List.mem_cons_self
  rintro ⟨d, rest, hd, h⟩
  rcases hextra : p.extra with _ | extra
  · refine harch ('_' :: mark.toList) hd ?_ (by simpa [extraText, hextra] using h)
    simpa using hno
  · have h : extra.text ++ p.archText = mark.toList ++ d :: rest := by
      simpa [extraText, hextra] using h
    rcases List.append_eq_append_iff.1 h with ⟨before, hmark', h⟩ | ⟨after, htext, h⟩
    · exact harch before hd (fun hmem ↦ hno (hmark' ▸ List.mem_append_right _ hmem)) h
    · rcases after with _ | ⟨c, after⟩
      · exact harch [] hd List.not_mem_nil h.symm
      · obtain rfl : d = c := (List.cons.inj h).1
        exact absurd ((extra.unmarked mark hmark d after htext).symm.trans hd) (by decide)

/-- A build does not begin like a cycle or a candidate. -/
theorem not_marks_build {mark : String} (hmark : mark ∈ ["c", "rc"]) :
    ¬ Marks mark (p.buildText ++ (p.extraText ++ p.archText)) := by
  rcases hbuild : p.build with _ | build
  · have h := @not_marks_extra p mark (by revert mark; decide)
    simpa [buildText, hbuild] using h
  · rintro ⟨d, rest, hd, h⟩
    obtain rfl | rfl : mark = "c" ∨ mark = "rc" := by simpa using hmark
    · simp [buildText, hbuild] at h
    · simp [buildText, hbuild] at h

/-- No part begins like the mark of a candidate. -/
theorem not_marks : ¬ Marks "rc" p.text := by
  rcases hcycle : p.cycle with _ | cycle
  · have h := @not_marks_build p "rc" (by simp)
    simpa [text, cycleText, hcycle] using h
  · rintro ⟨d, rest, hd, h⟩
    simp [text, cycleText, hcycle] at h

/-! ### Taking the parts apart -/

variable {α : Type} {caps : Captures} {k : List Char → Captures → Option α} {a : α}

/-- A numbered part is not found where its mark is not. -/
theorem go_mark_eq_none (mark : String) {name t : String} {s : List Char}
    (ht : t.toList = '_' :: mark.toList) (h : ¬ Marks mark s) :
    (Regex.text t ++ group name TagRegex.digits).go s caps k = none := by
  refine go_eq_none fun rest caps' hderives ↦ h ?_
  simp only [TagRegex.digits, derives_append_iff, derives_text_iff, derives_group_iff,
    derives_many_iff] at hderives
  obtain ⟨_, _, ⟨rfl, rfl⟩, _, ⟨taken, rfl, htaken, hlength, rfl⟩, rfl⟩ := hderives
  obtain ⟨d, ds, rfl⟩ := List.exists_cons_of_ne_nil (List.length_pos_iff.1 hlength)
  refine ⟨d, ds ++ rest, htaken d List.mem_cons_self, ?_⟩
  rw [ht, List.cons_append, List.cons_append]

/-- A number is taken as a whole. -/
theorem go_number (n : TagNumber) {name : String} {rest : List Char}
    (hstop : ∀ c ∈ rest.head?, isDecimal c = false) (hk : k rest ((name, n.text) :: caps) = some a) :
    (group name TagRegex.digits).go (n.text ++ rest) caps k = some a :=
  go_group_all n.isDecimal n.ne_nil hstop hk

theorem go_arch (h : k [] (p.archData ++ caps) = some a) :
    (TagRegex.arch ++ eol).go p.archText caps k = some a := by
  rw [go_append, TagRegex.arch]
  rcases harch : p.arch with _ | arch
  · simp only [archData, harch, Option.elim_none, List.nil_append] at h
    simp only [archText, harch, Option.elim_none]
    rw [go_opt_of_none rfl]
    exact h
  · simp only [archData, harch, Option.elim_some, List.cons_append, List.nil_append] at h
    simp only [archText, harch, Option.elim_some]
    refine go_opt_of_some ?_
    show (char '-' ++ _).go ('-' :: arch.text) caps _ = _
    rw [go_append, go_char, ← List.append_nil arch.text]
    refine go_group_all arch.lowerOrDigit arch.ne_nil (by simp) ?_
    exact h

theorem go_rest (h : k [] (p.archData ++ (p.extraData ++ caps)) = some a) :
    (TagRegex.rest ++ (TagRegex.arch ++ eol)).go (p.extraText ++ p.archText) caps k = some a := by
  rw [go_append, TagRegex.rest]
  rcases hextra : p.extra with _ | extra
  · simp only [extraData, hextra, Option.elim_none, List.nil_append] at h
    simp only [extraText, hextra, Option.elim_none, List.nil_append]
    rw [go_opt_of_none]
    · exact go_arch h
    · refine go_eq_none fun rest caps' hderives ↦ ?_
      simp only [derives_append_iff, derives_char_iff] at hderives
      obtain ⟨_, _, ⟨htext, -⟩, -⟩ := hderives
      rcases harch : p.arch with _ | arch <;> simp [archText, harch] at htext
  · simp only [extraData, hextra, Option.elim_some, List.cons_append, List.nil_append] at h
    simp only [extraText, hextra, Option.elim_some]
    refine go_opt_of_some ?_
    show (char '_' ++ _).go ('_' :: (extra.text ++ p.archText)) caps _ = _
    rw [go_append, go_char]
    refine go_group_least (fun c hc ↦ ?_) extra.ne_nil (fun n caps' hn ↦ ?_) (go_arch h)
    · simpa [TagRegex.notNewline] using (extra.plain c hc).2
    · -- A shorter one leaves a character of its own.
      obtain ⟨c, cs, hdrop⟩ := List.exists_cons_of_ne_nil
        (List.length_pos_iff.1 (by rw [List.length_drop]; omega : 0 < (extra.text.drop n).length))
      have hc := extra.plain c (List.mem_of_mem_drop (hdrop ▸ List.mem_cons_self))
      refine go_eq_none fun rest caps'' hderives ↦ ?_
      rw [hdrop, List.cons_append] at hderives
      simp only [TagRegex.arch, derives_append_iff, derives_opt_iff, derives_char_iff,
        derives_eol_iff] at hderives
      obtain ⟨_, _, ⟨_, _, ⟨hhead, -⟩, -⟩ | ⟨rfl, -⟩, hend, -⟩ := hderives
      · exact hc.1 (List.cons.inj hhead).1
      · rcases hend with hend | hend
        · cases hend
        · exact hc.2 (List.cons.inj hend).1

theorem go_rsp (h : k [] (p.archData ++ (p.extraData ++ (p.buildData ++ caps))) = some a) :
    (TagRegex.rsp ++ (TagRegex.rest ++ (TagRegex.arch ++ eol))).go
      (p.buildText ++ (p.extraText ++ p.archText)) caps k = some a := by
  rw [go_append, TagRegex.rsp]
  rcases hbuild : p.build with _ | build
  · simp only [buildData, hbuild, Option.elim_none, List.nil_append] at h
    simp only [buildText, hbuild, Option.elim_none, List.nil_append]
    rw [go_opt_of_none]
    · exact go_rest h
    · exact go_mark_eq_none "rsp" rfl (not_marks_extra (by simp))
  · simp only [buildData, hbuild, Option.elim_some, List.cons_append, List.nil_append] at h
    simp only [buildText, hbuild, Option.elim_some]
    refine go_opt_of_some ?_
    show (Regex.text "_rsp" ++ _).go (("_rsp".toList ++ build.text) ++ _) caps _ = _
    rw [go_append, List.append_assoc, go_text]
    exact go_number build (not_isDecimal_of_head head_extraText) (go_rest h)

/-- **The optional parts are taken apart** into what they were put together from. -/
theorem go_optionalParts (h : k [] (p.data ++ caps) = some a) :
    TagRegex.optionalParts.go p.text caps k = some a := by
  show (TagRegex.cycle ++ (TagRegex.rsp ++ (TagRegex.rest ++ (TagRegex.arch ++ eol)))).go _ _ _ = _
  have h : k [] (p.archData ++ (p.extraData ++ (p.buildData ++ (p.cycleData ++ caps)))) = some a := by
    rw [← h, data, List.append_assoc, List.append_assoc, List.append_assoc]
  rw [go_append, TagRegex.cycle, text]
  rcases hcycle : p.cycle with _ | cycle
  · simp only [cycleData, hcycle, Option.elim_none, List.nil_append] at h
    simp only [cycleText, hcycle, Option.elim_none, List.nil_append]
    rw [go_opt_of_none]
    · exact go_rsp h
    · rw [go_append, go_append]
      exact go_mark_eq_none "c" rfl (not_marks_build (by simp))
  · simp only [cycleData, hcycle, Option.elim_some, List.cons_append, List.nil_append] at h
    simp only [cycleText, hcycle, Option.elim_some]
    have hstop : ∀ (cs : List Char), ∀ c ∈ ('.' :: cs).head?, isDecimal c = false := by
      intro cs c hc
      obtain rfl := Option.some.inj hc
      decide +kernel
    refine go_opt_of_some ?_
    show (Regex.text "_c" ++ _ ++ char '.' ++ _).go
      (("_c".toList ++ (cycle.1.text ++ '.' :: cycle.2.text)) ++ _) caps _ = _
    simp only [go_append]
    rw [List.append_assoc, go_text, List.append_assoc]
    refine go_number cycle.1 (hstop _) ?_
    rw [List.cons_append, go_char]
    exact go_number cycle.2 (not_isDecimal_of_head head_buildText) (go_rsp h)

end Parts

/-! ### Bases -/

/-- What a tag names. -/
inductive Base
  | release (major minor patch : TagNumber)
  | candidate (major minor patch pre : TagNumber)
  | weekly (year week : TagNumber)
  | daily (year month day : TagNumber)

namespace Base

@[grind =] def imageType : Base → RSPImageType
  | release .. => .release
  | candidate .. => .candidate
  | weekly .. => .weekly
  | daily .. => .daily

/-- The expression for tags that name such. -/
@[grind =] def regex : Base → Regex
  | release .. => TagRegex.release
  | candidate .. => TagRegex.candidate
  | weekly .. => TagRegex.weekly
  | daily .. => TagRegex.daily

@[grind =] def text : Base → List Char
  | release major minor patch => 'r' :: (major.text ++ '_' :: (minor.text ++ '_' :: patch.text))
  | candidate major minor patch pre =>
    'r' :: (major.text ++ '_' :: (minor.text ++ '_' :: (patch.text ++
      '_' :: ("rc".toList ++ pre.text))))
  | weekly year week => "w_".toList ++ (year.text ++ '_' :: week.text)
  | daily year month day =>
    "d_".toList ++ (year.text ++ '_' :: (month.text ++ '_' :: day.text))

/-- What matching captures of it. -/
@[grind =] def data : Base → Captures
  | release major minor patch =>
    [("patch", patch.text), ("minor", minor.text), ("major", major.text)]
  | candidate major minor patch pre =>
    [("pre", "rc".toList ++ pre.text), ("patch", patch.text), ("minor", minor.text),
      ("major", major.text)]
  | weekly year week => [("week", week.text), ("year", year.text)]
  | daily year month day => [("day", day.text), ("month", month.text), ("year", year.text)]

/-- The numbers that parsing converts. The number of a candidate is not among them. -/
@[grind =] def numbers : Base → List TagNumber
  | release major minor patch | candidate major minor patch _ => [major, minor, patch]
  | weekly year week => [year, week]
  | daily year month day => [year, month, day]

/-- The version that is named. -/
@[grind =] def version : Base → Version
  | release major minor patch => { major := major.value, minor := minor.value, patch := patch.value }
  | candidate major minor patch pre =>
    { major := major.value, minor := minor.value, patch := patch.value
      prerelease := some (String.ofList ("rc".toList ++ pre.text)) }
  | weekly year week => { major := year.value, minor := week.value, patch := 0 }
  | daily year month day => { major := year.value, minor := month.value, patch := day.value }

/-- The date that is named, of a week its Thursday; `none` where there is no such date. -/
@[grind =] def date : Base → Option (Option Datetime)
  | release .. | candidate .. => some none
  | weekly year week => (Datetime.ofIsoCalendar year.value week.value 4).map some
  | daily year month day => (Datetime.ofYmd year.value month.value day.value).map some

/-- How the version or the date is displayed. -/
@[grind =] def displayName : Base → String
  | release major minor patch =>
    RSPImageType.release.value ++ s!" r{major.value}.{minor.value}.{patch.value}"
  | candidate major minor patch pre =>
    RSPImageType.candidate.value ++ s!" r{major.value}.{minor.value}.{patch.value}" ++
      ("-" ++ String.ofList ("rc".toList ++ pre.text))
  | weekly year week =>
    RSPImageType.weekly.value ++ " " ++ String.ofList year.text ++ "_" ++ String.ofList week.text
  | daily year month day =>
    RSPImageType.daily.value ++ " " ++ String.ofList year.text ++ "_" ++ String.ofList month.text ++
      "_" ++ String.ofList day.text

theorem imageType_ne_experimental (b : Base) : b.imageType ≠ .experimental := by
  cases b <;> simp [imageType]

theorem imageType_ne_unknown (b : Base) : b.imageType ≠ .unknown := by
  cases b <;> simp [imageType]

variable {α : Type} {caps : Captures} {k : List Char → Captures → Option α} {a : α}

/-- **A base is taken apart** into its numbers. -/
theorem go_regex (b : Base) {rest : List Char} (hrest : ∀ c ∈ rest.head?, isDecimal c = false)
    (h : k rest (b.data ++ caps) = some a) : b.regex.go (b.text ++ rest) caps k = some a := by
  have hstop : ∀ (cs : List Char), ∀ c ∈ ('_' :: cs).head?, isDecimal c = false := by
    intro cs c hc
    obtain rfl := Option.some.inj hc
    decide +kernel
  cases b with
  | release major minor patch =>
    simp only [regex, text, TagRegex.release, go_append, List.cons_append, List.append_assoc, go_char]
    refine Parts.go_number major (hstop _) ?_
    rw [go_char]
    refine Parts.go_number minor (hstop _) ?_
    rw [go_char]
    exact Parts.go_number patch hrest h
  | candidate major minor patch pre =>
    simp only [regex, text, TagRegex.candidate, go_append, List.cons_append, List.append_assoc,
      go_char]
    refine Parts.go_number major (hstop _) ?_
    rw [go_char]
    refine Parts.go_number minor (hstop _) ?_
    rw [go_char]
    refine Parts.go_number patch (hstop _) ?_
    rw [go_char]
    show (Regex.text "rc" ++ TagRegex.digits).go ("rc".toList ++ (pre.text ++ rest)) _ _ = _
    rw [go_append, go_text]
    refine takeMany_all pre.isDecimal (List.length_pos_iff.2 pre.ne_nil) hrest ?_
    have htaken : ("rc".toList ++ (pre.text ++ rest)).take
        (("rc".toList ++ (pre.text ++ rest)).length - rest.length) = "rc".toList ++ pre.text := by
      rw [← List.append_assoc, List.length_append, Nat.add_sub_cancel, List.take_left' rfl]
    show k rest (("pre", _) :: _) = _
    rw [htaken]
    exact h
  | weekly year week =>
    simp only [regex, text, TagRegex.weekly, go_append, List.append_assoc, go_text]
    refine Parts.go_number year (hstop _) ?_
    rw [List.cons_append, go_char]
    exact Parts.go_number week hrest h
  | daily year month day =>
    simp only [regex, text, TagRegex.daily, go_append, List.append_assoc, go_text]
    refine Parts.go_number year (hstop _) ?_
    simp only [List.cons_append, List.append_assoc, go_char]
    refine Parts.go_number month (hstop _) ?_
    rw [go_char]
    exact Parts.go_number day hrest h

/-- **A composed tag is taken apart** into what it was composed of. -/
theorem matchStart_text (b : Base) (p : Parts) :
    (b.regex ++ TagRegex.optionalParts).matchStart (b.text ++ p.text) = some (p.data ++ b.data) := by
  rw [matchStart, go_append]
  refine b.go_regex (Parts.not_isDecimal_of_head Parts.head_text) (Parts.go_optionalParts ?_)
  rw [List.append_nil]

/-! ### Expressions of other kinds -/

/-- What tags of a type begin with, unless the type is that of any text. -/
@[grind =] def initial : RSPImageType → Option Char
  | .release | .candidate => some 'r'
  | .weekly => some 'w'
  | .daily => some 'd'
  | .experimental => some 'e'
  | .unknown | .alias => none

/-- Expressions begin as the tags of their type do. -/
theorem begins_of_mem {imageType : RSPImageType} {regex : Regex}
    (hmem : (imageType, regex) ∈ tagRegexes) {c : Char} (hc : initial imageType = some c) :
    Begins c regex := by
  have hweekly : Begins 'w' (Regex.text "w_") := begins_text rfl
  have hdaily : Begins 'd' (Regex.text "d_") := begins_text rfl
  have hexperimental : Begins 'e' (Regex.text "exp_") := begins_text rfl
  simp only [tagRegexes, List.mem_cons, Prod.mk.injEq, List.not_mem_nil, or_false] at hmem
  rcases hmem with ⟨rfl, rfl⟩ | ⟨rfl, rfl⟩ | ⟨rfl, rfl⟩ | ⟨rfl, rfl⟩ | ⟨rfl, rfl⟩ | ⟨rfl, rfl⟩ |
    ⟨rfl, rfl⟩ | ⟨rfl, rfl⟩
  · obtain rfl := Option.some.inj hc
    exact (begins_char 'r').append.append.append.append.append.append.append.append
  · obtain rfl := Option.some.inj hc
    exact (begins_char 'r').append.append.append.append.append.append
  · obtain rfl := Option.some.inj hc
    exact (begins_char 'r').append.append.append
  · obtain rfl := Option.some.inj hc
    exact hweekly.append.append.append.append
  · obtain rfl := Option.some.inj hc
    exact hdaily.append.append.append.append.append.append
  · obtain rfl := Option.some.inj hc
    exact hexperimental.append.append
  · cases hc
  · cases hc

/-- An expression only matches texts that begin like tags of its type. -/
theorem head_of_matchStart {imageType : RSPImageType} {regex : Regex} {s : List Char}
    {data : Captures} (hmem : (imageType, regex) ∈ tagRegexes)
    (h : regex.matchStart s = some data) {c : Char} (hc : initial imageType = some c) :
    s.head? = some c := by
  obtain ⟨rest, hderives⟩ := derives_of_matchStart h
  exact begins_of_mem hmem hc _ _ _ _ hderives

/-- Decimal digits end where other characters begin. -/
theorem digits_unique {xs ys s t : List Char} (hxs : ∀ c ∈ xs, isDecimal c = true)
    (hys : ∀ c ∈ ys, isDecimal c = true) (hs : ∀ c ∈ s.head?, isDecimal c = false)
    (ht : ∀ c ∈ t.head?, isDecimal c = false) (h : xs ++ s = ys ++ t) : xs = ys ∧ s = t := by
  induction xs generalizing ys with
  | nil =>
    rcases ys with _ | ⟨y, ys⟩
    · exact ⟨rfl, h⟩
    · have hy := hys y List.mem_cons_self
      have hhead : s = y :: (ys ++ t) := h
      exact absurd ((hs y (by simp [hhead])).symm.trans hy) (by decide)
  | cons x xs ih =>
    have hx := hxs x List.mem_cons_self
    rcases ys with _ | ⟨y, ys⟩
    · have hhead : t = x :: (xs ++ s) := h.symm
      exact absurd ((ht x (by simp [hhead])).symm.trans hx) (by decide)
    · obtain ⟨rfl, htail⟩ := List.cons.inj h
      obtain ⟨rfl, rfl⟩ := ih (fun c hc ↦ hxs c (List.mem_cons_of_mem _ hc))
        (fun c hc ↦ hys c (List.mem_cons_of_mem _ hc)) htail
      exact ⟨rfl, rfl⟩

/-- **A release is not taken for a candidate**: what follows its numbers does not begin like the
number of one. -/
theorem not_candidate (major minor patch : TagNumber) (p : Parts) :
    (TagRegex.candidate ++ TagRegex.optionalParts).matchStart
      ((release major minor patch).text ++ p.text) = none := by
  refine go_eq_none fun rest caps' hderives ↦ p.not_marks ?_
  have hunderscore : ∀ {cs : List Char}, ∀ c ∈ ('_' :: cs).head?, isDecimal c = false :=
    Parts.not_isDecimal_of_head fun c hc ↦ Or.inl (Option.some.inj hc).symm
  simp only [TagRegex.candidate, TagRegex.digits, derives_append_iff, derives_char_iff,
    derives_group_iff, derives_text_iff, derives_many_iff, text, List.cons_append,
    List.append_assoc] at hderives
  obtain ⟨_, _, ⟨_, _, ⟨_, _, ⟨_, _, ⟨_, _, ⟨_, _, ⟨_, _, ⟨_, _, ⟨hr, -⟩, _, ⟨x, rfl, hx, -, -⟩, -⟩,
    ⟨rfl, -⟩⟩, _, ⟨y, rfl, hy, -, -⟩, -⟩, ⟨rfl, -⟩⟩, _, ⟨z, rfl, hz, -, -⟩, -⟩, ⟨rfl, -⟩⟩, _, ⟨_, _,
    ⟨rfl, -⟩, n, rfl, hn, hlength, -⟩, -⟩, -⟩ := hderives
  obtain ⟨-, h⟩ := digits_unique major.isDecimal hx hunderscore hunderscore (List.cons.inj hr).2
  obtain ⟨-, h⟩ := digits_unique minor.isDecimal hy hunderscore hunderscore (List.cons.inj h).2
  obtain ⟨-, h⟩ := digits_unique patch.isDecimal hz
    (Parts.not_isDecimal_of_head Parts.head_text) hunderscore (List.cons.inj h).2
  obtain ⟨d, ds, rfl⟩ := List.exists_cons_of_ne_nil (List.length_pos_iff.1 hlength)
  exact ⟨d, _, hn d List.mem_cons_self, h⟩

end Base

/-! ### Composed tags -/

/-- What is put together: the base and the optional parts, after `k` times `exp_`. -/
@[grind =] def composeChars (k : ℕ) (b : Base) (p : Parts) : List Char :=
  match k with
  | 0 => b.text ++ p.text
  | k + 1 => "exp_".toList ++ composeChars k b p

/-- The composed tag, as a text. -/
@[grind =] def compose (k : ℕ) (b : Base) (p : Parts) : String := String.ofList (composeChars k b p)

/-- What the components mean: every number can be converted and there is such a date. -/
structure Meaningful (b : Base) (p : Parts) : Prop where
  base : ∀ n ∈ b.numbers, n.Short
  parts : ∀ n ∈ p.numbers, n.Short
  date : b.date.isSome

/-- How a tag with these components is displayed. -/
@[grind =] def composedName (k : ℕ) (b : Base) (p : Parts) : String :=
  match k with
  | 0 => b.displayName ++ displaySuffix (p.cycle.map fun cycle ↦ String.ofList cycle.1.text)
      (p.cycle.map fun cycle ↦ String.ofList cycle.2.text)
      (p.build.map fun build ↦ String.ofList build.text)
      (p.extra.map fun extra ↦ String.ofList extra.text)
      (p.arch.map fun arch ↦ String.ofList arch.text)
  | k + 1 => RSPImageType.experimental.value ++ " " ++ composedName k b p

/-- The tag with exactly these components. -/
@[grind =] def composed (k : ℕ) (b : Base) (p : Parts) : RSPImageTag where
  tag := compose k b p
  imageType := if k = 0 then b.imageType else .experimental
  displayName := composedName k b p
  version := some b.version
  semantic := b.imageType.isSemantic
  cycle := p.cycle.map fun cycle ↦ cycle.1.value
  cycleBuild := p.cycle.map fun cycle ↦ cycle.2.value
  build := p.build.map TagNumber.value
  architecture := p.arch.map fun arch ↦ String.ofList arch.text
  extra := p.extra.map fun extra ↦ String.ofList extra.text
  date := b.date.getD none

end RSPImageTag

end Nublado.Images
