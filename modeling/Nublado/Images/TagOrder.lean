import Nublado.Images.Tag

/-!
# The order of image tags

What parsing guarantees about the fields that comparison reads, and what the comparison is on such
tags.

* A tag is `Keyed` when it has exactly one of a version and a base name. Every tag built from a match
  is; the tag that stands for "no expression matches" has neither.
* `fromStr_ranked` and `alias_ranked` are what parsing promises: tags of one type that were parsed
  never mix with a tag that has neither, except among unknown tags, which have no versions at all.
* `compare_eq_rank`: on such tags the comparison, which switches between versions and base names, is
  a lexicographic product of total preorders, base name first. Reflexivity, antisymmetry and
  transitivity are instances.

The one case that could break the order is an experimental tag built on a text that no expression
matches. It does not arise because the experimental expression only captures text without newlines,
and such a text always matches the last expression (`fromChars_ne_unmatched`).
-/

namespace Nublado.Images

namespace RSPImageTag

/-! ### The rank of a tag -/

section Rank

instance (noneLast : Bool) : Std.TransCmp fun a b ↦ compareStr a b noneLast :=
  transCmp_compareOptional (fun _ _ ↦ rfl) String.lt_irrefl noneLast

instance : Std.TransCmp compareInt :=
  transCmp_compareOptional (fun _ _ ↦ rfl) Nat.lt_irrefl false

variable [Ord Version]

/-- Compare base names, then versions, then the rest as the source does. -/
def rank : RSPImageTag → RSPImageTag → Ordering :=
  compareLex (fun a b ↦ compareStr a.base b.base) <|
  compareLex (fun a b ↦ Ord.compare a.version b.version) <|
  compareLex (fun a b ↦ compareInt a.cycle b.cycle) <|
  compareLex (fun a b ↦ compareInt a.cycleBuild b.cycleBuild) <|
  compareLex (fun a b ↦ compareInt a.build b.build) <|
  compareLex (fun a b ↦ compareStr a.extra b.extra) <|
  fun a b ↦ compareStr a.architecture b.architecture true

instance [Std.TransOrd Version] : Std.TransCmp rank := by
  have hbase : Std.TransCmp fun a b : RSPImageTag ↦ compareStr a.base b.base :=
    transCmp_comap (fun a b ↦ compareStr a b) base
  have hversion : Std.TransCmp fun a b : RSPImageTag ↦ Ord.compare a.version b.version :=
    transCmp_comap Ord.compare version
  have hint (f : RSPImageTag → Option ℕ) :
      Std.TransCmp fun a b : RSPImageTag ↦ compareInt (f a) (f b) := transCmp_comap compareInt f
  have hcycle := hint cycle
  have hcycleBuild := hint cycleBuild
  have hbuild := hint build
  have hextra : Std.TransCmp fun a b : RSPImageTag ↦ compareStr a.extra b.extra :=
    transCmp_comap (fun a b ↦ compareStr a b) extra
  have harchitecture :
      Std.TransCmp fun a b : RSPImageTag ↦ compareStr a.architecture b.architecture true :=
    transCmp_comap (fun a b ↦ compareStr a b true) architecture
  unfold rank
  infer_instance

/-- What parsing promises about the fields that the comparison looks at first. -/
structure Ranked (t : RSPImageTag) : Prop where
  /-- A tag with a version has no base name. -/
  base_eq_none : t.version.isSome → t.base = none
  /-- An experimental tag has one of the two. -/
  experimental : t.imageType = .experimental → t.version.isSome ∨ t.base.isSome
  /-- Aliases and unknown tags have no version. -/
  version_eq_none : t.imageType.isAliasType → t.version = none
  /-- Every other tag has one. -/
  version_isSome : t.imageType ≠ .experimental → ¬ t.imageType.isAliasType → t.version.isSome

/-- **The comparison is the rank.** On parsed tags of one type, switching between versions and base
names makes no difference. -/
theorem compare_eq_rank {a b : RSPImageTag} (ha : a.Ranked) (hb : b.Ranked)
    (htype : a.imageType = b.imageType) : a.compare b = some (rank a b) := by
  have hcomparable : a.isComparableType b = true := by simp [isComparableType, htype]
  have hnone : compareStr none none = .eq := rfl
  have hbelow : ∀ x, compareStr none (some x) = .lt := fun x ↦ rfl
  have habove : ∀ x, compareStr (some x) none = .gt := fun x ↦ rfl
  rw [compare, hcomparable]
  simp only [Bool.not_true, Bool.false_eq_true, if_false, rank, compareLex, Option.some.injEq]
  rcases hva : a.version with _ | v <;> rcases hvb : b.version with _ | v'
  · -- Neither has a version, so that the version's turn decides nothing.
    have heq : Ord.compare (none : Option Version) none = .eq := rfl
    simp [heq]
  · -- Only experimental tags mix, and then the one without a version has a base name.
    have hbase : b.base = none := hb.base_eq_none (by simp [hvb])
    have hexp : a.imageType = .experimental := by
      by_contra hne
      have := ha.version_isSome hne fun halias ↦ by
        simpa [hvb] using hb.version_eq_none (htype ▸ halias)
      simp [hva] at this
    have hsome := ha.experimental hexp
    obtain ⟨x, hx⟩ := Option.isSome_iff_exists.1 (hsome.resolve_left (by simp [hva]))
    simp [hbase, hx, habove]
  · have hbase : a.base = none := ha.base_eq_none (by simp [hva])
    have hexp : b.imageType = .experimental := by
      by_contra hne
      have := hb.version_isSome hne fun halias ↦ by
        simpa [hva] using ha.version_eq_none (htype ▸ halias)
      simp [hvb] at this
    have hsome := hb.experimental hexp
    obtain ⟨x, hx⟩ := Option.isSome_iff_exists.1 (hsome.resolve_left (by simp [hvb]))
    simp [hbase, hx, hbelow]
  · -- Both have a version and no base name.
    have hbase : a.base = none := ha.base_eq_none (by simp [hva])
    have hbase' : b.base = none := hb.base_eq_none (by simp [hvb])
    have heq : Ord.compare (some v) (some v') = Ord.compare v v' := rfl
    simp [hbase, hbase', hnone, heq]

end Rank

/-! ### What parsing promises -/

/-- A tag with exactly one of a version and a base name. -/
def Keyed (t : RSPImageTag) : Prop := t.version.isSome ↔ t.base = none

/-- The text that an experimental tag is built on: nonempty, without newlines, and shorter than the
tag. -/
theorem rest_of_experimental {tag : List Char} {data : Captures}
    (h : (TagRegex.experimental ++ Regex.eol).matchStart tag = some data) :
    ∃ inner, data.lookup "rest" = some inner ∧ inner ≠ [] ∧ '\n' ∉ inner ∧
      inner.length < tag.length := by
  obtain ⟨rest, hr⟩ := Regex.derives_of_matchStart h
  simp only [TagRegex.experimental, Regex.derives_append_iff, Regex.derives_text_iff,
    Regex.derives_group_iff, Regex.derives_many_iff, Regex.derives_eol_iff] at hr
  obtain ⟨_, _, ⟨_, _, ⟨rfl, rfl⟩, _, ⟨taken, rfl, htaken, hlen, rfl⟩, rfl⟩, -, rfl, rfl⟩ := hr
  refine ⟨taken, by simp, ?_, ?_, ?_⟩
  · rintro rfl
    simp at hlen
  · intro hmem
    simpa [TagRegex.notNewline] using htaken _ hmem
  · have hexp : "exp_".toList.length = 4 := rfl
    rw [List.length_append, List.length_append, hexp]
    omega

/-- The last expression makes a tag of every match. -/
theorem fromMatch_unknown {parse : List Char → RSPImageTag} {tag : List Char} {data : Captures}
    (h : (TagRegex.unknown ++ TagRegex.arch ++ Regex.eol).matchStart tag = some data) :
    (fromMatch parse .unknown data tag).isSome := by
  obtain ⟨rest, hr⟩ := Regex.derives_of_matchStart h
  simp only [TagRegex.unknown, TagRegex.arch, Regex.derives_append_iff, Regex.derives_opt_iff,
    Regex.derives_char_iff, Regex.derives_group_iff, Regex.derives_many_iff,
    Regex.derives_eol_iff] at hr
  obtain ⟨_, _, ⟨_, _, ⟨_, ⟨_, rfl, -, -, rfl⟩, rfl⟩, harch⟩, -, rfl, rfl⟩ := hr
  rcases harch with ⟨_, _, ⟨rfl, rfl⟩, _, ⟨_, rfl, -, -, rfl⟩, rfl⟩ | ⟨rfl, rfl⟩
  · simp [fromMatch, nameAndVersion, List.lookup_cons, optionalInt, calculateDate]
  · simp [fromMatch, nameAndVersion, List.lookup_cons, optionalInt, calculateDate]

/-- A tag made of a match is keyed, and has a version unless it is experimental or unknown. -/
theorem fromMatch_spec {parse : List Char → RSPImageTag} {imageType : RSPImageType}
    {data : Captures} {tag : List Char} {t : RSPImageTag} (hne : imageType ≠ .experimental)
    (h : fromMatch parse imageType data tag = some t) :
    t.imageType = imageType ∧ t.Keyed ∧ (t.version.isSome ↔ imageType ≠ .unknown) := by
  simp only [fromMatch, if_neg hne, Option.bind_eq_bind, Option.bind_eq_some_iff] at h
  obtain ⟨⟨displayName, base, version⟩, hparts, _, -, _, -, _, -, _, -, h⟩ := h
  obtain rfl := Option.some.inj h
  rcases eq_or_ne imageType .unknown with rfl | hunknown
  · obtain ⟨-, rfl, rfl⟩ : _ ∧ some _ = base ∧ none = version := by
      simpa [nameAndVersion] using hparts
    simp [Keyed]
  · rw [nameAndVersion, if_neg hunknown] at hparts
    obtain ⟨⟨_, _⟩, -, hparts⟩ := Option.map_eq_some_iff.1 hparts
    obtain ⟨-, rfl, rfl⟩ : _ ∧ none = base ∧ some _ = version := by simpa using hparts
    simp [Keyed, hunknown]

/-- An experimental tag takes over what its inner tag parses to. -/
theorem fromMatch_experimental {parse : List Char → RSPImageTag} {data : Captures}
    {tag inner : List Char} (hinner : data.lookup "rest" = some inner) (hne : inner ≠ []) :
    fromMatch parse .experimental data tag = some { parse inner with
      imageType := .experimental
      tag := String.ofList tag
      displayName := RSPImageType.experimental.value ++ " " ++ (parse inner).displayName } := by
  cases inner with
  | nil => exact absurd rfl hne
  | cons c cs => simp [fromMatch, hinner]

/-- The only expression for experimental tags. -/
theorem eq_of_experimental_mem {regex : Regex}
    (h : (RSPImageType.experimental, regex) ∈ tagRegexes) :
    regex = TagRegex.experimental ++ Regex.eol := by
  simpa [tagRegexes] using h

/-- A parsed tag is the unmatched tag, or it is made of a match of one of the expressions. -/
theorem fromChars_cases (fuel : ℕ) (tag : List Char) :
    fromChars (fuel + 1) tag = unmatched tag ∨ ∃ imageType regex data,
      (imageType, regex) ∈ tagRegexes ∧ regex.matchStart tag = some data ∧
        fromMatch (fromChars fuel) imageType data tag = some (fromChars (fuel + 1) tag) := by
  rw [fromChars]
  rcases hfind : tagRegexes.findSome? _ with _ | t
  · exact Or.inl rfl
  · obtain ⟨⟨imageType, regex⟩, hmem, h⟩ := List.exists_of_findSome?_eq_some hfind
    obtain ⟨data, hdata, ht⟩ := Option.bind_eq_some_iff.1 h
    exact Or.inr ⟨imageType, regex, data, hmem, hdata, ht⟩

/-- A text without newlines matches the last expression, if no other. -/
theorem fromChars_ne_unmatched (fuel : ℕ) {tag : List Char} (hline : '\n' ∉ tag) :
    ∃ imageType regex data, (imageType, regex) ∈ tagRegexes ∧ regex.matchStart tag = some data ∧
      fromMatch (fromChars fuel) imageType data tag = some (fromChars (fuel + 1) tag) := by
  have hlast : (RSPImageType.unknown, TagRegex.unknown ++ TagRegex.arch ++ Regex.eol) ∈
      tagRegexes := by simp [tagRegexes]
  have hderives : (TagRegex.unknown ++ TagRegex.arch ++ Regex.eol).Derives tag [] []
      [("tag", tag)] := by
    have hclass : ∀ c ∈ tag, TagRegex.notNewline c = true := fun c hc ↦ by
      have : c ≠ '\n' := fun h ↦ hline (h ▸ hc)
      simpa [TagRegex.notNewline] using this
    simp only [TagRegex.unknown, TagRegex.arch, Regex.derives_append_iff, Regex.derives_opt_iff,
      Regex.derives_group_iff, Regex.derives_many_iff, Regex.derives_eol_iff]
    refine ⟨[], _, ⟨[], _, ⟨[], ⟨tag, by simp, hclass, Nat.zero_le _, rfl⟩, rfl⟩,
      Or.inr ⟨rfl, rfl⟩⟩, Or.inl rfl, rfl, by simp⟩
  obtain ⟨data, hdata⟩ := Option.isSome_iff_exists.1 (Regex.matchStart_isSome hderives)
  rw [fromChars]
  rcases hfind : tagRegexes.findSome? _ with _ | t
  · have hnone := List.findSome?_eq_none_iff.1 hfind _ hlast
    simp only [hdata, Option.bind_some] at hnone
    exact absurd hnone (Option.isSome_iff_ne_none.1 (fromMatch_unknown hdata))
  · obtain ⟨⟨imageType, regex⟩, hmem, h⟩ := List.exists_of_findSome?_eq_some hfind
    obtain ⟨data, hdata, ht⟩ := Option.bind_eq_some_iff.1 h
    exact ⟨imageType, regex, data, hmem, hdata, ht⟩

/-- **Texts without newlines are keyed**, by induction on how deep experimental tags nest. -/
theorem fromChars_keyed {fuel : ℕ} {tag : List Char} (hfuel : tag.length < fuel)
    (hline : '\n' ∉ tag) : (fromChars fuel tag).Keyed := by
  induction fuel generalizing tag with
  | zero => omega
  | succ fuel ih =>
    obtain ⟨imageType, regex, data, hmem, hdata, ht⟩ := fromChars_ne_unmatched fuel hline
    rcases eq_or_ne imageType .experimental with rfl | hne
    · obtain rfl := eq_of_experimental_mem hmem
      obtain ⟨inner, hinner, hnil, hinnerline, hlt⟩ := rest_of_experimental hdata
      rw [fromMatch_experimental hinner hnil] at ht
      have hkeyed : (fromChars fuel inner).Keyed := ih (by omega) hinnerline
      rw [← Option.some.inj ht]
      exact hkeyed
    · exact (fromMatch_spec hne ht).2.1

/-- Parsing promises what the comparison needs. -/
theorem fromChars_ranked {fuel : ℕ} {tag : List Char} (hfuel : tag.length < fuel) :
    (fromChars fuel tag).Ranked := by
  cases fuel with
  | zero => omega
  | succ fuel =>
    rcases fromChars_cases fuel tag with h | ⟨imageType, regex, data, hmem, hdata, ht⟩
    · rw [h]
      exact ⟨by simp [unmatched], by simp [unmatched], by simp [unmatched],
        by simp [unmatched, RSPImageType.isAliasType]⟩
    · rcases eq_or_ne imageType .experimental with rfl | hne
      · obtain rfl := eq_of_experimental_mem hmem
        obtain ⟨inner, hinner, hnil, hinnerline, hlt⟩ := rest_of_experimental hdata
        have hkeyed : (fromChars fuel inner).Keyed := fromChars_keyed (by omega) hinnerline
        rw [fromMatch_experimental hinner hnil] at ht
        rw [← Option.some.inj ht]
        refine ⟨hkeyed.1, fun _ ↦ ?_, by simp [RSPImageType.isAliasType], by simp⟩
        rcases hv : (fromChars fuel inner).version with _ | v
        · refine Or.inr (Option.isSome_iff_ne_none.2 fun hbase ↦ ?_)
          simpa [hv] using hkeyed.2 hbase
        · exact Or.inl rfl
      · obtain ⟨htype, hkeyed, hversion⟩ := fromMatch_spec hne ht
        refine ⟨hkeyed.1, fun h ↦ absurd (htype ▸ h) hne, fun halias ↦ ?_, fun _ halias ↦ ?_⟩
        · rw [htype] at halias
          rcases hv : (fromChars (fuel + 1) tag).version with _ | v
          · rfl
          · have hunknown : imageType ≠ .unknown := hversion.1 (by simp [hv])
            have : imageType = .alias := by
              simpa [RSPImageType.isAliasType, hunknown] using halias
            subst this
            simp [tagRegexes] at hmem
        · refine hversion.2 fun hunknown ↦ halias ?_
          rw [htype, hunknown]
          rfl

theorem findSome?_congr_of_mem {α β : Type} {l : List α} {f g : α → Option β}
    (h : ∀ a ∈ l, f a = g a) : l.findSome? f = l.findSome? g := by
  induction l with
  | nil => rfl
  | cons a l ih =>
    rw [List.findSome?_cons, List.findSome?_cons, h a List.mem_cons_self,
      ih fun b hb ↦ h b (List.mem_cons_of_mem _ hb)]

/-- **More fuel than the text is long changes nothing**: `fromChars` computes the recursion of the
source. -/
theorem fromChars_eq {m n : ℕ} {tag : List Char} (hm : tag.length < m) (hn : tag.length < n) :
    fromChars m tag = fromChars n tag := by
  induction m generalizing n tag with
  | zero => omega
  | succ m ih =>
    cases n with
    | zero => omega
    | succ n =>
      rw [fromChars, fromChars]
      congr 1
      refine findSome?_congr_of_mem fun ⟨imageType, regex⟩ hp ↦ ?_
      show (regex.matchStart tag).bind _ = (regex.matchStart tag).bind _
      refine Option.bind_congr fun data hdata ↦ ?_
      rcases eq_or_ne imageType .experimental with rfl | hne
      · obtain rfl := eq_of_experimental_mem hp
        obtain ⟨inner, hinner, hnil, -, hlt⟩ := rest_of_experimental hdata
        have hsub : fromChars m inner = fromChars n inner := ih (by omega) (by omega)
        rw [fromMatch_experimental hinner hnil, fromMatch_experimental hinner hnil, hsub]
      · simp [fromMatch, hne]

theorem fromStr_ranked (tag : String) : (fromStr tag).Ranked :=
  fromChars_ranked (Nat.lt_succ_self _)

/-- An alias tag has a base name and no version. -/
theorem alias_ranked {title : String → String} {tag : String} {t : RSPImageTag}
    (h : RSPImageTag.alias title tag = some t) : t.Ranked := by
  have hfields : t.imageType = .alias ∧ t.version = none := by
    rw [RSPImageTag.alias] at h
    split at h
    · obtain ⟨_, -, h⟩ := Option.bind_eq_some_iff.1 h
      obtain rfl := Option.some.inj h
      exact ⟨rfl, rfl⟩
    · split at h
      · obtain ⟨_, -, h⟩ := Option.bind_eq_some_iff.1 h
        obtain rfl := Option.some.inj h
        exact ⟨rfl, rfl⟩
      · obtain ⟨_, -, h⟩ := Option.bind_eq_some_iff.1 h
        obtain rfl := Option.some.inj h
        exact ⟨rfl, rfl⟩
  obtain ⟨htype, hversion⟩ := hfields
  exact ⟨by simp [hversion], by simp [htype], fun _ ↦ hversion,
    by simp [htype, RSPImageType.isAliasType]⟩

end RSPImageTag

end Nublado.Images
