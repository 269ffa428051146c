import Nublado.Images.Composition

/-!
# Parsing inverts composition

`fromStr_compose`: of a tag that was composed, parsing recovers **exactly the components**, also
through any number of `exp_`, if they mean something (`Meaningful`). If they do not, because a number
is too long to be converted or because there is no such date, the tag is not taken for what it was
composed as, and the tag of a week or a day for nothing in particular.

## What this rests on

* The expression for the base captures what the tag was composed of, and no other one is tried
  before it with success (`fromChars_text`).
* From the captured texts, the components are computed one by one, and each computation fails only
  if its number is too long or its date does not exist (`parseVersion_eq`, `calculateDate_eq`,
  `optionalInt_eq`).
* Parsing an experimental tag parses the rest, which is the induction.
-/

namespace Nublado.Images

namespace RSPImageTag

open Regex

variable {b : Base} {p : Parts}

/-! ### The captured groups -/

section Groups

/-- The group of an optional part. -/
theorem lookup_part {β : Type} (part : Option β) (f : β → List Char) (key name : String) :
    (part.elim ([] : Captures) fun x ↦ [(key, f x)]).lookup name =
      if name = key then part.map f else none := by
  rcases part with _ | x
  · simp
  · rcases eq_or_ne name key with rfl | hne
    · simp
    · rw [if_neg hne, Option.elim_some, List.lookup_cons, beq_false_of_ne hne]
      rfl

/-- The groups of the cycle. -/
theorem lookup_cycleData (name : String) : p.cycleData.lookup name =
    if name = "cbuild" then p.cycle.map fun cycle ↦ cycle.2.text
    else if name = "cycle" then p.cycle.map fun cycle ↦ cycle.1.text else none := by
  rw [Parts.cycleData]
  rcases p.cycle with _ | cycle
  · simp
  · rw [Option.elim_some, List.lookup_cons]
    rcases eq_or_ne name "cbuild" with rfl | hne
    · simp
    · rw [if_neg hne, beq_false_of_ne hne]
      exact lookup_part (some cycle) (fun cycle ↦ cycle.1.text) "cycle" name

/-- The groups of the optional parts. -/
theorem lookup_data (name : String) : p.data.lookup name =
    (if name = "arch" then p.arch.map fun arch ↦ arch.text else none).or
      ((if name = "rest" then p.extra.map fun extra ↦ extra.text else none).or
        ((if name = "build" then p.build.map fun build ↦ build.text else none).or
          (if name = "cbuild" then p.cycle.map fun cycle ↦ cycle.2.text
            else if name = "cycle" then p.cycle.map fun cycle ↦ cycle.1.text else none))) := by
  rw [Parts.data, List.lookup_append, List.lookup_append, List.lookup_append, lookup_cycleData,
    Parts.archData, Parts.extraData, Parts.buildData, lookup_part, lookup_part, lookup_part]

/-- The names of the groups of optional parts. -/
def partNames : List String := ["arch", "rest", "build", "cbuild", "cycle"]

/-- A base has none of them. -/
theorem lookup_of_mem {name : String} (h : name ∈ partNames) :
    (p.data ++ b.data).lookup name = p.data.lookup name := by
  have hnone : b.data.lookup name = none := by
    have hnames : ∀ pair ∈ b.data, pair.1 ∉ partNames := by
      cases b <;> simp [Base.data, partNames]
    refine List.lookup_eq_none_iff.2 fun pair hpair ↦ bne_iff_ne.2 ?_
    rintro rfl
    exact hnames pair hpair h
  rw [List.lookup_append, hnone, Option.or_none]

/-- It has all others. -/
theorem lookup_of_not_mem {name : String} (h : name ∉ partNames) :
    (p.data ++ b.data).lookup name = b.data.lookup name := by
  simp only [partNames, List.mem_cons, List.not_mem_nil, not_or, or_false] at h
  obtain ⟨harch, hrest, hbuild, hcbuild, hcycle⟩ := h
  rw [List.lookup_append, lookup_data]
  simp [harch, hrest, hbuild, hcbuild, hcycle]

end Groups

/-! ### The components, computed -/

section Reading

/-- The groups of the base are all that its version is made of. -/
theorem parseVersion_parts (imageType : RSPImageType) :
    parseVersion imageType (p.data ++ b.data) = parseVersion imageType b.data := by
  simp only [parseVersion, lookup_of_not_mem (by decide : "major" ∉ partNames),
    lookup_of_not_mem (by decide : "minor" ∉ partNames),
    lookup_of_not_mem (by decide : "patch" ∉ partNames),
    lookup_of_not_mem (by decide : "pre" ∉ partNames),
    lookup_of_not_mem (by decide : "year" ∉ partNames),
    lookup_of_not_mem (by decide : "month" ∉ partNames),
    lookup_of_not_mem (by decide : "week" ∉ partNames),
    lookup_of_not_mem (by decide : "day" ∉ partNames)]

/-- So is its date. -/
theorem calculateDate_parts : calculateDate (p.data ++ b.data) = calculateDate b.data := by
  simp only [calculateDate, lookup_of_not_mem (by decide : "year" ∉ partNames),
    lookup_of_not_mem (by decide : "month" ∉ partNames),
    lookup_of_not_mem (by decide : "week" ∉ partNames),
    lookup_of_not_mem (by decide : "day" ∉ partNames)]

/-- **The version and its display**, if the numbers of the base can be converted. -/
theorem parseVersion_eq (h : ∀ n ∈ b.numbers, n.Short) :
    parseVersion b.imageType b.data = some (b.displayName, b.version) := by
  cases b with
  | release major minor patch =>
    simp only [Base.numbers, List.forall_mem_cons] at h
    obtain ⟨hmajor, hminor, hpatch, -⟩ := h
    simp [parseVersion, Base.imageType, RSPImageType.isSemantic, Base.data, List.lookup_cons,
      TagNumber.toInt_text hmajor, TagNumber.toInt_text hminor, TagNumber.toInt_text hpatch,
      Base.displayName, Base.version]
  | candidate major minor patch pre =>
    simp only [Base.numbers, List.forall_mem_cons] at h
    obtain ⟨hmajor, hminor, hpatch, -⟩ := h
    simp [parseVersion, Base.imageType, RSPImageType.isSemantic, Base.data, List.lookup_cons,
      TagNumber.toInt_text hmajor, TagNumber.toInt_text hminor, TagNumber.toInt_text hpatch,
      Base.displayName, Base.version]
  | weekly year week =>
    simp only [Base.numbers, List.forall_mem_cons] at h
    obtain ⟨hyear, hweek, -⟩ := h
    simp [parseVersion, Base.imageType, RSPImageType.isSemantic, Base.data, List.lookup_cons,
      TagNumber.toInt_text hyear, TagNumber.toInt_text hweek, Base.displayName, Base.version]
  | daily year month day =>
    simp only [Base.numbers, List.forall_mem_cons] at h
    obtain ⟨hyear, hmonth, hday, -⟩ := h
    simp [parseVersion, Base.imageType, RSPImageType.isSemantic, Base.data, List.lookup_cons,
      TagNumber.toInt_text hyear, TagNumber.toInt_text hmonth, TagNumber.toInt_text hday,
      Base.displayName, Base.version]

/-- **The date**, if the numbers of the base can be converted. -/
theorem calculateDate_eq (h : ∀ n ∈ b.numbers, n.Short) : calculateDate b.data = b.date := by
  cases b with
  | release major minor patch => rfl
  | candidate major minor patch pre => rfl
  | weekly year week =>
    simp only [Base.numbers, List.forall_mem_cons] at h
    obtain ⟨hyear, hweek, -⟩ := h
    rw [Base.date, Option.map_eq_bind]
    simp [calculateDate, Base.data, List.lookup_cons, TagNumber.toInt_text hyear,
      TagNumber.toInt_text hweek]
  | daily year month day =>
    simp only [Base.numbers, List.forall_mem_cons] at h
    obtain ⟨hyear, hmonth, hday, -⟩ := h
    rw [Base.date, Option.map_eq_bind]
    simp [calculateDate, Base.data, List.lookup_cons, TagNumber.toInt_text hyear,
      TagNumber.toInt_text hmonth, TagNumber.toInt_text hday]

/-- **Otherwise** there is no version. -/
theorem short_of_parseVersion (h : (parseVersion b.imageType b.data).isSome) :
    ∀ n ∈ b.numbers, n.Short := by
  obtain ⟨parsed, h⟩ := Option.isSome_iff_exists.1 h
  have hshort : ∀ {n : TagNumber} {i : ℕ}, toInt n.text = some i → n.Short := fun hn ↦
    TagNumber.short_iff _ |>.1 (Option.isSome_iff_exists.2 ⟨_, hn⟩)
  cases b with
  | release major minor patch =>
    simp only [parseVersion, RSPImageType.isSemantic, Base.imageType, Bool.true_or, BEq.rfl, if_true,
      Base.data, List.lookup_cons, String.reduceBEq, Option.getD_some, Option.bind_eq_bind,
      Option.bind_some, Option.bind_eq_some_iff] at h
    obtain ⟨_, hmajor, _, hminor, _, hpatch, -⟩ := h
    simpa [Base.numbers] using ⟨hshort hmajor, hshort hminor, hshort hpatch⟩
  | candidate major minor patch pre =>
    simp only [parseVersion, RSPImageType.isSemantic, Base.imageType, Bool.or_true, BEq.rfl, if_true,
      Base.data, List.lookup_cons, String.reduceBEq, Option.getD_some, Option.bind_eq_bind,
      Option.bind_some, Option.bind_eq_some_iff] at h
    obtain ⟨_, hmajor, _, hminor, _, hpatch, -⟩ := h
    simpa [Base.numbers] using ⟨hshort hmajor, hshort hminor, hshort hpatch⟩
  | weekly year week =>
    simp only [parseVersion, RSPImageType.isSemantic, Base.imageType, Bool.or_eq_true, beq_iff_eq,
      reduceCtorEq, or_self, if_false, if_true, Base.data, List.lookup_cons, String.reduceBEq, BEq.rfl,
      Option.bind_eq_bind, Option.bind_some, Option.bind_eq_some_iff] at h
    obtain ⟨_, hyear, _, hweek, -⟩ := h
    simpa [Base.numbers] using ⟨hshort hyear, hshort hweek⟩
  | daily year month day =>
    simp only [parseVersion, RSPImageType.isSemantic, Base.imageType, Bool.or_eq_true, beq_iff_eq,
      reduceCtorEq, or_self, if_false, Base.data, List.lookup_cons, String.reduceBEq, BEq.rfl,
      Option.bind_eq_bind, Option.bind_some, Option.bind_eq_some_iff] at h
    obtain ⟨_, hyear, _, hmonth, _, hday, -⟩ := h
    simpa [Base.numbers] using ⟨hshort hyear, hshort hmonth, hshort hday⟩

/-- A number of an optional part. -/
theorem optionalInt_part {β : Type} (part : Option β) (f : β → TagNumber) :
    optionalInt (part.map fun x ↦ (f x).text) =
      (part.elim (some none) fun x ↦ (toInt (f x).text).map some) := by
  rcases part with _ | x
  · rfl
  · exact (f x).optionalInt_text

/-- The numbered groups of the optional parts. -/
theorem lookup_numbers : p.data.lookup "cycle" = (p.cycle.map fun cycle ↦ cycle.1.text) ∧
    p.data.lookup "cbuild" = (p.cycle.map fun cycle ↦ cycle.2.text) ∧
    p.data.lookup "build" = (p.build.map fun build ↦ build.text) := by
  simp [lookup_data]

/-- The numbers of the optional parts, if they can be converted. -/
theorem optionalInt_eq (h : ∀ n ∈ p.numbers, n.Short) :
    optionalInt (p.data.lookup "cycle") = some (p.cycle.map fun cycle ↦ cycle.1.value) ∧
      optionalInt (p.data.lookup "cbuild") = some (p.cycle.map fun cycle ↦ cycle.2.value) ∧
      optionalInt (p.data.lookup "build") = some (p.build.map TagNumber.value) := by
  have hpart : ∀ {β : Type} (part : Option β) (f : β → TagNumber), (∀ x ∈ part, (f x).Short) →
      optionalInt (part.map fun x ↦ (f x).text) = some (part.map fun x ↦ (f x).value) := by
    intro β part f hshort
    rw [optionalInt_part]
    rcases part with _ | x
    · rfl
    · rw [Option.elim_some, TagNumber.toInt_text (hshort x rfl)]
      rfl
  have hcycle : ∀ cycle ∈ p.cycle, cycle.1.Short ∧ cycle.2.Short := fun cycle hmem ↦
    ⟨h _ (by simp [Parts.numbers, Option.mem_def.1 hmem]),
      h _ (by simp [Parts.numbers, Option.mem_def.1 hmem])⟩
  have hbuild : ∀ build ∈ p.build, build.Short := fun build hmem ↦
    h _ (by simp [Parts.numbers, Option.mem_def.1 hmem])
  obtain ⟨hlookup, hlookup', hlookup''⟩ := @lookup_numbers p
  rw [hlookup, hlookup', hlookup'']
  exact ⟨hpart p.cycle (fun cycle ↦ cycle.1) fun cycle hmem ↦ (hcycle cycle hmem).1,
    hpart p.cycle (fun cycle ↦ cycle.2) fun cycle hmem ↦ (hcycle cycle hmem).2,
    hpart p.build id hbuild⟩

/-- **Otherwise** one of them is not converted. -/
theorem short_of_optionalInt (hcycle : (optionalInt (p.data.lookup "cycle")).isSome)
    (hcbuild : (optionalInt (p.data.lookup "cbuild")).isSome)
    (hbuild : (optionalInt (p.data.lookup "build")).isSome) : ∀ n ∈ p.numbers, n.Short := by
  have hpart : ∀ {β : Type} {part : Option β} (f : β → TagNumber),
      (optionalInt (part.map fun x ↦ (f x).text)).isSome → ∀ x ∈ part, (f x).Short := by
    intro β part f hsome x hmem
    rw [optionalInt_part, Option.mem_def.1 hmem, Option.elim_some, Option.isSome_map] at hsome
    exact (f x).short_iff.1 hsome
  obtain ⟨hlookup, hlookup', hlookup''⟩ := @lookup_numbers p
  rw [hlookup] at hcycle
  rw [hlookup'] at hcbuild
  rw [hlookup''] at hbuild
  intro n hn
  rcases List.mem_append.1 hn with hn | hn
  · rcases hp : p.cycle with _ | cycle
    · simp [hp] at hn
    · have hn : n = cycle.1 ∨ n = cycle.2 := by simpa [hp] using hn
      rcases hn with rfl | rfl
      · exact hpart (fun cycle : TagNumber × TagNumber ↦ cycle.1) hcycle cycle hp
      · exact hpart (fun cycle : TagNumber × TagNumber ↦ cycle.2) hcbuild cycle hp
  · exact hpart id hbuild n (by simpa using hn)

/-- What is made of the captured groups has the components, if they mean something. -/
theorem fromMatch_eq (h : Meaningful b p) (parse : List Char → RSPImageTag) :
    fromMatch parse b.imageType (p.data ++ b.data) (b.text ++ p.text) = some (composed 0 b p) := by
  obtain ⟨hcycle, hcbuild, hbuild⟩ := optionalInt_eq h.parts
  obtain ⟨date, hdate⟩ := Option.isSome_iff_exists.1 h.date
  have hlookup : ∀ name ∈ partNames, (p.data ++ b.data).lookup name = p.data.lookup name :=
    fun _ ↦ lookup_of_mem
  simp only [fromMatch, if_neg b.imageType_ne_experimental, nameAndVersion,
    if_neg b.imageType_ne_unknown, parseVersion_parts, parseVersion_eq h.base,
    calculateDate_parts, calculateDate_eq h.base, hdate,
    hlookup "cycle" (by decide), hlookup "cbuild" (by decide), hlookup "build" (by decide),
    hlookup "rest" (by decide), hlookup "arch" (by decide), hcycle, hcbuild, hbuild,
    Option.bind_eq_bind, Option.bind_some, Option.map_some]
  rw [composed, hdate]
  simp [lookup_data, composedName, compose, composeChars, Function.comp_def]

/-- **If anything is made of them**, they mean something. -/
theorem meaningful_of_fromMatch {parse : List Char → RSPImageTag} {tag : List Char}
    (h : (fromMatch parse b.imageType (p.data ++ b.data) tag).isSome) : Meaningful b p := by
  obtain ⟨t, h⟩ := Option.isSome_iff_exists.1 h
  simp only [fromMatch, if_neg b.imageType_ne_experimental, nameAndVersion,
    if_neg b.imageType_ne_unknown, parseVersion_parts, calculateDate_parts,
    lookup_of_mem (by decide : "cycle" ∈ partNames),
    lookup_of_mem (by decide : "cbuild" ∈ partNames),
    lookup_of_mem (by decide : "build" ∈ partNames), Option.bind_eq_bind,
    Option.bind_eq_some_iff] at h
  obtain ⟨_, hversion, _, hcycle, _, hcbuild, _, hbuild, _, hdate, -⟩ := h
  have hbase : ∀ n ∈ b.numbers, n.Short := by
    refine short_of_parseVersion ?_
    rw [← Option.isSome_map, hversion]
    rfl
  refine ⟨hbase, short_of_optionalInt ?_ ?_ ?_, ?_⟩
  · rw [hcycle]
    rfl
  · rw [hcbuild]
    rfl
  · rw [hbuild]
    rfl
  · rw [← calculateDate_eq hbase, hdate]
    rfl

end Reading

/-! ### Parsing -/

section Parsing

/-- The first expression that something is made of decides. -/
theorem fromChars_of_match {fuel : ℕ} {tag : List Char} {t : RSPImageTag}
    {before after : List (RSPImageType × Regex)} {imageType : RSPImageType} {regex : Regex}
    {data : Captures} (hsplit : tagRegexes = before ++ (imageType, regex) :: after)
    (hbefore : ∀ entry ∈ before, entry.2.matchStart tag = none)
    (hmatch : regex.matchStart tag = some data)
    (ht : fromMatch (fromChars fuel) imageType data tag = some t) : fromChars (fuel + 1) tag = t := by
  have hnone : before.findSome? (fun entry ↦ (entry.2.matchStart tag).bind fun data ↦
      fromMatch (fromChars fuel) entry.1 data tag) = none := by
    refine List.findSome?_eq_none_iff.2 fun entry hentry ↦ ?_
    rw [hbefore entry hentry]
    rfl
  show (tagRegexes.findSome? (fun entry ↦ (entry.2.matchStart tag).bind fun data ↦
      fromMatch (fromChars fuel) entry.1 data tag)).getD (unmatched tag) = t
  rw [hsplit, List.findSome?_append, hnone, Option.none_or, List.findSome?_cons, hmatch,
    Option.bind_some, ht]
  rfl

/-- Expressions of types that begin otherwise do not match. -/
theorem matchStart_eq_none {entry : RSPImageType × Regex} {s : List Char} {c : Char}
    (hentry : entry ∈ tagRegexes) (hinitial : Base.initial entry.1 = some c)
    (hs : s.head? ≠ some c) : entry.2.matchStart s = none := by
  rcases h : entry.2.matchStart s with _ | data
  · rfl
  · exact absurd (Base.head_of_matchStart hentry h hinitial) hs

/-- What a tag begins with. -/
theorem head_text (b : Base) (s : List Char) : (b.text ++ s).head? = Base.initial b.imageType := by
  cases b <;> rfl

/-- Nor do all those before an expression, if that is so of their types. -/
theorem matchStart_before {n : ℕ} {s : List Char} {c : Char} (hs : s.head? = some c)
    (h : ∀ t ∈ (tagRegexes.take n).map Prod.fst, Base.initial t ≠ none ∧ Base.initial t ≠ some c) :
    ∀ entry ∈ tagRegexes.take n, entry.2.matchStart s = none := by
  intro entry hentry
  obtain ⟨hnone, hother⟩ := h entry.1 (List.mem_map_of_mem hentry)
  obtain ⟨c', hc'⟩ := Option.ne_none_iff_exists'.1 hnone
  refine matchStart_eq_none (List.mem_of_mem_take hentry) hc' fun hhead ↦ hother ?_
  rw [hc', ← hhead, hs]

/-- **The expression for the base is the first to match.** -/
theorem exists_split (b : Base) (p : Parts) : ∃ before after,
    tagRegexes = before ++ (b.imageType, b.regex ++ TagRegex.optionalParts) :: after ∧
      ∀ entry ∈ before, entry.2.matchStart (b.text ++ p.text) = none := by
  cases b with
  | candidate major minor patch pre =>
    exact ⟨[], tagRegexes.tail, rfl, List.forall_mem_nil _⟩
  | release major minor patch =>
    refine ⟨tagRegexes.take 1, tagRegexes.drop 2, rfl, ?_⟩
    simpa [tagRegexes] using Base.not_candidate major minor patch p
  | weekly year week =>
    exact ⟨tagRegexes.take 3, tagRegexes.drop 4, rfl, matchStart_before (head_text _ _) (by decide)⟩
  | daily year month day =>
    exact ⟨tagRegexes.take 4, tagRegexes.drop 5, rfl, matchStart_before (head_text _ _) (by decide)⟩

/-- Composed tags are single lines. -/
theorem not_mem_newline (k : ℕ) (b : Base) (p : Parts) : '\n' ∉ composeChars k b p := by
  have hnumber : ∀ n : TagNumber, '\n' ∉ n.text := fun n hmem ↦
    absurd (n.isDigit _ hmem) (by decide)
  have hextra : ∀ extra : TagExtra, '\n' ∉ extra.text := fun extra hmem ↦
    (extra.plain _ hmem).2 rfl
  have harch : ∀ arch : TagArch, '\n' ∉ arch.text := fun arch hmem ↦
    absurd (arch.lowerOrDigit _ hmem) (by decide)
  have hparts : '\n' ∉ p.text := by
    have hcycleText : '\n' ∉ p.cycleText := by
      rw [Parts.cycleText]
      rcases p.cycle with _ | cycle <;> simp [hnumber]
    have hbuildText : '\n' ∉ p.buildText := by
      rw [Parts.buildText]
      rcases p.build with _ | build <;> simp [hnumber]
    have hextraText : '\n' ∉ p.extraText := by
      rw [Parts.extraText]
      rcases p.extra with _ | extra <;> simp [hextra]
    have harchText : '\n' ∉ p.archText := by
      rw [Parts.archText]
      rcases p.arch with _ | arch <;> simp [harch]
    simp [Parts.text, hcycleText, hbuildText, hextraText, harchText]
  induction k with
  | zero =>
    have hbase : '\n' ∉ b.text := by
      cases b <;> simp [Base.text, hnumber]
    simp [composeChars, hbase, hparts]
  | succ k ih => simpa [composeChars] using ih

theorem composeChars_ne_nil (k : ℕ) (b : Base) (p : Parts) : composeChars k b p ≠ [] := by
  cases k with
  | zero => cases b <;> exact List.cons_ne_nil _ _
  | succ k => exact List.cons_ne_nil _ _

/-- **The rest of an experimental tag** is all that follows `exp_`. -/
theorem matchStart_experimental {inner : List Char} (hne : inner ≠ []) (hline : '\n' ∉ inner) :
    (TagRegex.experimental ++ eol).matchStart ("exp_".toList ++ inner) = some [("rest", inner)] := by
  have hclass : ∀ c ∈ inner, TagRegex.notNewline c = true := fun c hc ↦ by
    have hother : c ≠ '\n' := fun h ↦ hline (h ▸ hc)
    simpa [TagRegex.notNewline] using hother
  rw [matchStart, TagRegex.experimental, go_append, go_append, go_text]
  have hall : (group "rest" (many TagRegex.notNewline 1 true)).go (inner ++ []) []
      (fun rest caps ↦ eol.go rest caps fun _ caps ↦ some caps) = some [("rest", inner)] :=
    go_group_all hclass hne (by simp) rfl
  rwa [List.append_nil] at hall

/-- **Parsing recovers the components**, by induction on how many times `exp_` stands before them. -/
theorem fromChars_compose (h : Meaningful b p) (k : ℕ) : ∀ {fuel : ℕ},
    (composeChars k b p).length < fuel → fromChars fuel (composeChars k b p) = composed k b p := by
  induction k with
  | zero =>
    intro fuel hfuel
    obtain ⟨fuel, rfl⟩ := Nat.exists_eq_succ_of_ne_zero (Nat.ne_zero_of_lt hfuel)
    obtain ⟨before, after, hsplit, hbefore⟩ := exists_split b p
    exact fromChars_of_match hsplit hbefore (b.matchStart_text p) (fromMatch_eq h _)
  | succ k ih =>
    intro fuel hfuel
    obtain ⟨fuel, rfl⟩ := Nat.exists_eq_succ_of_ne_zero (Nat.ne_zero_of_lt hfuel)
    have hlength : (composeChars k b p).length < fuel := by
      have hexp : (composeChars (k + 1) b p).length = 4 + (composeChars k b p).length := by
        rw [composeChars, List.length_append]
        rfl
      omega
    have hsplit : tagRegexes = tagRegexes.take 5 ++
        (.experimental, TagRegex.experimental ++ eol) :: tagRegexes.drop 6 := rfl
    have hne := composeChars_ne_nil k b p
    refine fromChars_of_match hsplit (matchStart_before (c := 'e') rfl (by decide))
      (matchStart_experimental hne (not_mem_newline k b p)) ?_
    rw [fromMatch_experimental List.lookup_cons_self hne, ih hlength]
    simp [composed, composedName, compose, composeChars]

theorem fromStr_eq_fromChars (k : ℕ) (b : Base) (p : Parts) : fromStr (compose k b p) =
    fromChars ((composeChars k b p).length + 1) (composeChars k b p) := by
  have hne : compose k b p ≠ "" := by
    rw [compose, Ne, String.ext_iff, String.toList_ofList]
    exact composeChars_ne_nil k b p
  rw [fromStr, if_neg hne, compose, String.toList_ofList]

/-- A release is not an obsolete one. -/
theorem not_obsolete (major minor patch : TagNumber) (p : Parts) :
    TagRegex.obsoleteRelease.matchStart ((Base.release major minor patch).text ++ p.text) = none := by
  refine go_eq_none fun rest caps' hderives ↦ ?_
  have hunderscore : ∀ {cs : List Char}, ∀ c ∈ ('_' :: cs).head?, isDecimal c = false :=
    Parts.not_isDecimal_of_head fun c hc ↦ Or.inl (Option.some.inj hc).symm
  simp only [TagRegex.obsoleteRelease, derives_append_iff, derives_char_iff, derives_group_iff,
    derives_one_iff, derives_eol_iff, Base.text, List.cons_append, List.append_assoc] at hderives
  obtain ⟨rest, _, ⟨_, _, ⟨_, _, ⟨hr, -⟩, _, ⟨_, _, ⟨x, hx, rfl, -⟩, y, hy, rfl, -⟩, -⟩, _,
    ⟨z, hz, rfl, -⟩, -⟩, hend, -⟩ := hderives
  have hrest : ∀ c ∈ rest.head?, isDecimal c = false := by
    have hnewline : isDecimal '\n' = false := by decide +kernel
    rcases hend with rfl | rfl
    · simp
    · simpa using hnewline
  have hdigits : ∀ c ∈ [x, y, z], isDecimal c = true := by simp [hx, hy, hz]
  obtain ⟨-, h⟩ := Base.digits_unique major.isDecimal hdigits hunderscore hrest
    (List.cons.inj hr).2
  rcases hend with rfl | rfl
  · cases h
  · exact absurd (List.cons.inj h).1 (by decide)

/-- **What is taken for its kind** means something. -/
theorem meaningful_of_imageType (h : (fromStr (compose 0 b p)).imageType = b.imageType) :
    Meaningful b p := by
  rw [fromStr_eq_fromChars] at h
  rcases fromChars_cases (composeChars 0 b p).length (composeChars 0 b p) with hnone |
    ⟨imageType, regex, data, hmem, hdata, ht⟩
  · rw [hnone] at h
    exact absurd h.symm b.imageType_ne_unknown
  have hne : imageType ≠ .experimental := by
    rintro rfl
    obtain rfl := eq_of_experimental_mem hmem
    obtain ⟨inner, hinner, hnil, -⟩ := rest_of_experimental hdata
    rw [fromMatch_experimental hinner hnil] at ht
    rw [← Option.some.inj ht] at h
    exact absurd h.symm b.imageType_ne_experimental
  obtain rfl : imageType = b.imageType := (fromMatch_spec hne ht).1.symm.trans h
  have hregex : regex = b.regex ++ TagRegex.optionalParts := by
    cases b with
    | release major minor patch =>
      have hmem : regex = TagRegex.release ++ TagRegex.optionalParts ∨
          regex = TagRegex.obsoleteRelease := by
        simpa [tagRegexes, Base.imageType] using hmem
      rcases hmem with rfl | rfl
      · rfl
      · have hnone := not_obsolete major minor patch p
        exact absurd (hnone.symm.trans hdata) (by simp)
    | candidate major minor patch pre => simpa [tagRegexes, Base.imageType, Base.regex] using hmem
    | weekly year week => simpa [tagRegexes, Base.imageType, Base.regex] using hmem
    | daily year month day => simpa [tagRegexes, Base.imageType, Base.regex] using hmem
  subst hregex
  obtain rfl : p.data ++ b.data = data :=
    Option.some.inj ((b.matchStart_text p).symm.trans hdata)
  exact meaningful_of_fromMatch (Option.isSome_iff_exists.2 ⟨_, ht⟩)

/-- A week or a day that means nothing is unknown. -/
theorem unknown_of_not_meaningful (hdated : b.imageType = .weekly ∨ b.imageType = .daily)
    (h : ¬ Meaningful b p) : (fromStr (compose 0 b p)).imageType = .unknown := by
  have hother : (fromStr (compose 0 b p)).imageType ≠ b.imageType :=
    fun htype ↦ h (meaningful_of_imageType htype)
  rw [fromStr_eq_fromChars] at hother ⊢
  rcases fromChars_cases (composeChars 0 b p).length (composeChars 0 b p) with hnone |
    ⟨imageType, regex, data, hmem, hdata, ht⟩
  · rw [hnone]
    rfl
  have hhead : ∀ c, Base.initial imageType = some c → Base.initial b.imageType = some c :=
    fun c hc ↦ (head_text b p.text).symm.trans (Base.head_of_matchStart hmem hdata hc)
  have hne : imageType ≠ .experimental := by
    rintro rfl
    have he := hhead 'e' rfl
    rcases hdated with htype | htype <;> rw [htype] at he <;> cases he
  have htype := (fromMatch_spec hne ht).1
  rw [htype] at hother ⊢
  -- An expression of another type begins otherwise, except those for any text.
  cases imageType with
  | unknown => rfl
  | experimental => exact absurd rfl hne
  | «alias» => simp [tagRegexes] at hmem
  | release | candidate =>
    have hr := hhead 'r' rfl
    rcases hdated with htype | htype <;> rw [htype] at hr <;> cases hr
  | weekly =>
    have hw := hhead 'w' rfl
    rcases hdated with htype | htype
    · exact absurd htype.symm hother
    · rw [htype] at hw
      cases hw
  | daily =>
    have hd := hhead 'd' rfl
    rcases hdated with htype | htype
    · rw [htype] at hd
      cases hd
    · exact absurd htype.symm hother

/-- **Parsing inverts composition.** A tag with any number of `exp_` before it parses to exactly what
it was composed of, if that means something. If it does not, the tag is not taken for what it was
composed as; that of a week or a day is unknown. -/
theorem fromStr_compose (b : Base) (p : Parts) :
    (∀ k, Meaningful b p → fromStr (compose k b p) = composed k b p) ∧
      ((fromStr (compose 0 b p)).imageType = b.imageType ↔ Meaningful b p) ∧
      (b.imageType = .weekly ∨ b.imageType = .daily → ¬ Meaningful b p →
        (fromStr (compose 0 b p)).imageType = .unknown) := by
  have hparse : ∀ k, Meaningful b p → fromStr (compose k b p) = composed k b p := by
    intro k h
    rw [fromStr_eq_fromChars]
    exact fromChars_compose h k (Nat.lt_succ_self _)
  refine ⟨hparse, ⟨meaningful_of_imageType, fun h ↦ ?_⟩, unknown_of_not_meaningful⟩
  rw [hparse 0 h]
  rfl

end Parsing

/-! ### Examples of tags -/

/-- A number, written without leading zeros. -/
def sampleNumber (n : ℕ) : TagNumber where
  text := numeral n
  ne_nil := Nat.toDigits_ne_nil
  isDigit := fun _ ↦ isDigit_of_mem_numeral

/-- The optional parts `_c20.1_rsp19_nosudo-amd64`. -/
def sampleParts : Parts where
  cycle := some (sampleNumber 20, sampleNumber 1)
  build := some (sampleNumber 19)
  extra := some
    { text := "nosudo".toList
      ne_nil := List.cons_ne_nil _ _
      plain := by simp
      unmarked := by simp }
  arch := some
    { text := "amd64".toList
      ne_nil := List.cons_ne_nil _ _
      lowerOrDigit := by simp [TagRegex.lowerOrDigit] }

/-- Week 13 of 2021 is recovered, also from an experimental tag; there is no week 54. -/
theorem fromStr_compose_sample :
    compose 1 (.weekly (sampleNumber 2021) (sampleNumber 13)) sampleParts =
        "exp_w_2021_13_c20.1_rsp19_nosudo-amd64" ∧
      fromStr "exp_w_2021_13_c20.1_rsp19_nosudo-amd64" =
        composed 1 (.weekly (sampleNumber 2021) (sampleNumber 13)) sampleParts ∧
      (fromStr "w_2021_54").imageType = .unknown := by
  have hcompose : compose 1 (.weekly (sampleNumber 2021) (sampleNumber 13)) sampleParts =
      "exp_w_2021_13_c20.1_rsp19_nosudo-amd64" := by decide +kernel
  have hshort : ∀ n ∈ [2021, 13, 20, 1, 19], (numeral n).length ≤ maxIntDigits := by decide +kernel
  refine ⟨hcompose, ?_, ?_⟩
  · rw [← hcompose]
    refine (fromStr_compose _ _).1 1 ⟨?_, ?_, by decide +kernel⟩
    · simpa [Base.numbers] using ⟨hshort 2021 (by simp), hshort 13 (by simp)⟩
    · simpa [Parts.numbers, sampleParts] using
        ⟨hshort 20 (by simp), hshort 1 (by simp), hshort 19 (by simp)⟩
  · have hcompose' : compose 0 (.weekly (sampleNumber 2021) (sampleNumber 54)) {} = "w_2021_54" := by
      decide +kernel
    rw [← hcompose']
    refine (fromStr_compose _ _).2.2 (Or.inl rfl) fun h ↦ ?_
    have hdate : (Base.weekly (sampleNumber 2021) (sampleNumber 54)).date = none := by
      decide +kernel
    exact absurd h.date (by rw [hdate]; decide)

end RSPImageTag

end Nublado.Images
