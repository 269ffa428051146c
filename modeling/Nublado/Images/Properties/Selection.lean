import Nublado.Images.Properties.Partition

/-!
# Which tags are selected

Two ways to pick tags from a collection: `subset` takes so many of the newest releases, weeklies and
dailies, and some tags by name; `filter` takes the newest that meet every criterion of a policy.

* `filter_exact`: a filter yields the greatest tags that meet every criterion, provided that the dates
  it computes exist and no zero is involved. A number, an age or a build of zero is taken for none.
* `subset_selects_iff`: a subset consists of the tags it should have, sorted, and each occurs once
  exactly if no tag that is asked for by name is among those taken by count. Otherwise it occurs twice,
  since the list of the subset's tags is put together without looking for tags that are in it already.

The greatest tags of a type are the first ones in the list that a collection keeps of the type.
-/

namespace Nublado.Images

namespace RSPImageTagCollection

/-! ### Subsets -/

section Subsets

variable {T : Type} {view : T → RSPImageTag} {c : RSPImageTagCollection T} {tags : List T}

/-- The greatest tags of a type, up to a number. -/
@[grind =] def greatest (view : T → RSPImageTag) (c : RSPImageTagCollection T) (t : RSPImageType) (n : ℕ)
    (removeArchSpecific : Bool) : List T :=
  (candidates view (c.byType t) removeArchSpecific).take n

/-- The tags that a subset has by count. -/
@[grind =] def counted (view : T → RSPImageTag) (c : RSPImageTagCollection T) (releases weeklies dailies : ℕ)
    (removeArchSpecific : Bool) : List T :=
  c.greatest view .release releases removeArchSpecific ++
    c.greatest view .weekly weeklies removeArchSpecific ++
    c.greatest view .daily dailies removeArchSpecific

/-- **What the loop over a type takes** are its greatest tags. -/
theorem firstTags_eq (c : RSPImageTagCollection T) (t : RSPImageType) (n : ℕ)
    (removeArchSpecific : Bool) :
    c.firstTags view t n removeArchSpecific = c.greatest view t n removeArchSpecific := by
  cases n with
  | zero => simp [firstTags, greatest]
  | succ n => rw [firstTags, if_neg n.succ_ne_zero, takeAccepted_eq, newest, greatest, candidates]

theorem greatest_sublist (c : RSPImageTagCollection T) (t : RSPImageType) (n : ℕ)
    (removeArchSpecific : Bool) :
    (c.greatest view t n removeArchSpecific).Sublist (c.byType t) :=
  (List.take_sublist _ _).trans List.filter_sublist

theorem mem_of_mem_greatest (h : Indexed view c tags) {t : RSPImageType} {n : ℕ}
    {removeArchSpecific : Bool} {tag : T} (htag : tag ∈ c.greatest view t n removeArchSpecific) :
    tag ∈ tags ∧ (view tag).imageType = t :=
  h.mem_byType.1 ((greatest_sublist c t n removeArchSpecific).subset htag)

/-- What is taken by count are tags of the collection. -/
theorem mem_of_mem_counted (h : Indexed view c tags) {releases weeklies dailies : ℕ}
    {removeArchSpecific : Bool} {tag : T}
    (htag : tag ∈ c.counted view releases weeklies dailies removeArchSpecific) : tag ∈ tags := by
  simp only [counted, List.mem_append] at htag
  rcases htag with (htag | htag) | htag
  · exact (mem_of_mem_greatest h htag).1
  · exact (mem_of_mem_greatest h htag).1
  · exact (mem_of_mem_greatest h htag).1

/-- **No tag is taken by count twice.** -/
theorem nodup_counted (h : Indexed view c tags) (hnodup : tags.Nodup) (releases weeklies dailies : ℕ)
    (removeArchSpecific : Bool) :
    (c.counted view releases weeklies dailies removeArchSpecific).Nodup := by
  have hone : ∀ t n, (c.greatest view t n removeArchSpecific).Nodup := fun t n ↦
    (((h.byType t).nodup_iff.2 (hnodup.filter _)).sublist (greatest_sublist c t n _))
  have hapart : ∀ {t t' : RSPImageType} (n n' : ℕ), t ≠ t' → ∀ tag,
      tag ∈ c.greatest view t n removeArchSpecific →
      tag ∉ c.greatest view t' n' removeArchSpecific := by
    intro t t' n n' hne tag htag htag'
    have ht := (mem_of_mem_greatest h htag).2
    have ht' := (mem_of_mem_greatest h htag').2
    exact hne (ht.symm.trans ht')
  refine (((hone _ _).append (hone _ _) ?_).append (hone _ _)) ?_
  · exact fun tag htag htag' ↦ hapart _ _ (by decide) tag htag htag'
  · intro tag htag htag'
    rcases List.mem_append.1 htag with htag | htag
    · exact hapart _ _ (by decide) tag htag htag'
    · exact hapart _ _ (by decide) tag htag htag'

/-- Where names are distinct, a name finds the one tag that has it. -/
theorem Indexed.byTag_eq_some (h : Indexed view c tags)
    (hnames : (tags.map fun tag ↦ (view tag).tag).Nodup) {name : String} {tag : T} :
    c.byTag name = some tag ↔ tag ∈ tags ∧ (view tag).tag = name := by
  rw [h.byTag]
  constructor
  · intro hfind
    exact ⟨List.mem_reverse.1 (List.mem_of_find?_eq_some hfind),
      by simpa using List.find?_some hfind⟩
  · rintro ⟨htag, hname⟩
    rcases hfind : tags.reverse.find? fun tag ↦ (view tag).tag = name with _ | tag'
    · have hnone := List.find?_eq_none.1 hfind tag (List.mem_reverse.2 htag)
      exact absurd hname (by simpa using hnone)
    · have hname' : (view tag').tag = name := by simpa using List.find?_some hfind
      have htag' := List.mem_reverse.1 (List.mem_of_find?_eq_some hfind)
      exact congrArg some (List.inj_on_of_nodup_map hnames htag' htag (hname'.trans hname.symm))

/-- No tag is taken by name twice. -/
theorem Indexed.nodup_filterMap_byTag (h : Indexed view c tags)
    (hnames : (tags.map fun tag ↦ (view tag).tag).Nodup) {names : List String}
    (hnodup : names.Nodup) : (names.filterMap c.byTag).Nodup := by
  refine hnodup.filterMap fun name name' tag hname hname' ↦ ?_
  have heq := ((h.byTag_eq_some hnames).1 hname).2
  have heq' := ((h.byTag_eq_some hnames).1 hname').2
  exact heq.symm.trans heq'

/-- **What a subset should be**: it has the tags taken by count and those of the collection that are
asked for by name, the list of each type is sorted, and no tag occurs twice. -/
structure SelectsOnce [Ord Version] (view : T → RSPImageTag) (c : RSPImageTagCollection T)
    (releases weeklies dailies : ℕ) (included : Finset String) (removeArchSpecific : Bool)
    (c' : RSPImageTagCollection T) : Prop where
  mem_iff : ∀ tag, tag ∈ c'.allTags view false ↔
    tag ∈ c.counted view releases weeklies dailies removeArchSpecific ∨
      tag ∈ c.allTags view false ∧ (view tag).tag ∈ included
  sorted : ∀ t, (c'.byType t).Pairwise fun a b ↦ (view a).lt (view b) = some false
  nodup : (c'.allTags view false).Nodup

/-- **A subset selects the right tags once** exactly if no tag that is asked for by name is taken by
count as well. -/
theorem subset_selects_iff [Ord Version] [Std.TransOrd Version] (title : String → String)
    (order : SetOrder) (tags added : List RSPImageTag)
    (hparsed : ∀ t ∈ tags ++ added, t.Parsed title)
    (hnames : ((tags ++ added).map RSPImageTag.tag).Nodup) (releases weeklies dailies : ℕ)
    (included : Finset String) (removeArchSpecific : Bool) :
    ∃ c c', build tags added = some c ∧
      c.subset id order releases weeklies dailies included removeArchSpecific = some c' ∧
      (SelectsOnce id c releases weeklies dailies included removeArchSpecific c' ↔
        ∀ tag ∈ c.counted id releases weeklies dailies removeArchSpecific, tag.tag ∉ included) := by
  obtain ⟨c, hbuild, hindexed, -⟩ := build_spec tags added
  obtain ⟨chosen, hchosen⟩ : ∃ chosen, chosen =
      c.counted id releases weeklies dailies removeArchSpecific := ⟨_, rfl⟩
  obtain ⟨named, hnamed⟩ : ∃ named, named = (order.toList included).filterMap c.byTag := ⟨_, rfl⟩
  have hsubset : c.subset id order releases weeklies dailies included removeArchSpecific =
      init id (chosen ++ named) := by
    rw [subset, firstTags_eq, firstTags_eq, firstTags_eq, hchosen, hnamed]
    rfl
  obtain ⟨c', hc'⟩ : ∃ c', init id (chosen ++ named) = some c' := ⟨_, init_eq _⟩
  have hindexed' := init_indexed hc'
  have hmemNamed : ∀ tag, tag ∈ named ↔ tag ∈ c.allTags id false ∧ tag.tag ∈ included := by
    intro tag
    rw [hnamed, List.mem_filterMap, hindexed.mem_allTags]
    constructor
    · rintro ⟨name, hname, hby⟩
      obtain ⟨htag, rfl⟩ := (hindexed.byTag_eq_some hnames).1 hby
      exact ⟨htag, (order.mem_toList _ _).1 hname⟩
    · rintro ⟨htag, hname⟩
      exact ⟨tag.tag, (order.mem_toList _ _).2 hname, (hindexed.byTag_eq_some hnames).2 ⟨htag, rfl⟩⟩
  have hmem : ∀ tag ∈ chosen ++ named, tag ∈ tags ++ added := by
    intro tag htag
    rcases List.mem_append.1 htag with htag | htag
    · exact mem_of_mem_counted hindexed (hchosen ▸ htag)
    · exact hindexed.mem_allTags.1 ((hmemNamed tag).1 htag).1
  have hsorted : ∀ t, (c'.byType t).Pairwise fun a b ↦ a.lt b = some false := by
    intro t
    have hof : ∀ tag ∈ c'.byType t, tag.Ranked ∧ tag.imageType = t := by
      intro tag htag
      obtain ⟨htag, htype⟩ := hindexed'.mem_byType.1 htag
      exact ⟨(hparsed tag (hmem tag htag)).ranked, htype⟩
    have hlist : c'.byType t = sorted id ((chosen ++ named).filter fun tag ↦ tag.imageType = t) := by
      rw [init_eq] at hc'
      rw [← Option.some.inj hc']
      rfl
    have hin : ∀ tag ∈ (chosen ++ named).filter (fun tag ↦ tag.imageType = t),
        tag.Ranked ∧ tag.imageType = t := fun tag htag ↦
      hof tag (by rw [hlist]; simpa [sorted] using htag)
    have hpairwise := sorted_pairwise (fun tag htag ↦ (hin tag htag).1) fun a ha b hb ↦
      (hin a ha).2.trans (hin b hb).2.symm
    rw [← hlist] at hpairwise
    refine hpairwise.imp_of_mem fun {a b} ha hb hne ↦ ?_
    rw [RSPImageTag.lt, RSPImageTag.compare_eq_rank (hof a ha).1 (hof b hb).1
      ((hof a ha).2.trans (hof b hb).2.symm)]
    simpa using hne
  have hnodup : (c'.allTags id false).Nodup ↔ ∀ tag ∈ chosen, tag.tag ∉ included := by
    rw [hindexed'.perm_allTags.nodup_iff, List.nodup_append]
    constructor
    · rintro ⟨-, -, hapart⟩ tag htag hname
      have hin := hindexed.mem_allTags.2 (mem_of_mem_counted hindexed (hchosen ▸ htag))
      exact hapart tag htag tag ((hmemNamed tag).2 ⟨hin, hname⟩) rfl
    · intro hapart
      refine ⟨hchosen ▸ nodup_counted hindexed hnames.of_map _ _ _ _,
        hnamed ▸ hindexed.nodup_filterMap_byTag hnames (order.nodup_toList _), ?_⟩
      rintro tag htag _ htag' rfl
      exact hapart tag htag ((hmemNamed tag).1 htag').2
  refine ⟨c, c', hbuild, hsubset.trans hc', ?_⟩
  rw [← hchosen, ← hnodup]
  constructor
  · exact fun h ↦ h.nodup
  · refine fun h ↦ ⟨fun tag ↦ ?_, hsorted, h⟩
    rw [hindexed'.mem_allTags, List.mem_append, hmemNamed, ← hchosen]
    rfl

end Subsets

/-! ### Filters -/

section Filters

variable {T : Type} [Ord Version] {view : T → RSPImageTag}

/-- **A tag meets every criterion of a filter.** A criterion on what the tag does not have is met. -/
def Meets (f : ImageFilter) (ageBasis : Datetime) (tag : RSPImageTag) : Prop :=
  (∀ build ∈ tag.build, ∀ cutoff ∈ f.cutoffBuild, cutoff ≤ (build : ℤ)) ∧
  (∀ date ∈ tag.date, (∀ cutoff ∈ f.cutoffDate, cutoff ≤ date) ∧
    ∀ age ∈ f.age, ageBasis - age ≤ date) ∧
  (tag.semantic = true → ∀ version ∈ tag.version, ∀ cutoff ∈ f.cutoffVersion,
    Ord.compare version cutoff ≠ .lt)

instance (f : ImageFilter) (ageBasis : Datetime) (tag : RSPImageTag) :
    Decidable (Meets f ageBasis tag) := inferInstanceAs (Decidable (_ ∧ _ ∧ (_ → _)))

/-- What a filter should yield of the tags of one type: the greatest that meet every criterion, up to
the number. Aliases and unknown tags have no filter. -/
def wanted (view : T → RSPImageTag) (tags : List T) (policy : Option ImageFilter)
    (ageBasis : Datetime) (removeArchSpecific : Bool) : List T :=
  let all := candidates view tags removeArchSpecific
  policy.elim all fun f ↦
    let met := all.filter fun tag ↦ Meets f ageBasis (view tag)
    f.number.elim met met.take

/-- **No zero is involved**: neither the number nor the age is zero, and no tag with a build number of
zero has to reach a build number. -/
structure ZeroFree (view : T → RSPImageTag) (tags : List T) (f : ImageFilter) : Prop where
  number : f.number ≠ some 0
  age : f.age ≠ some 0
  build : ∀ tag ∈ tags, (view tag).build = some 0 → ∀ cutoff ∈ f.cutoffBuild, cutoff ≤ 0

omit [Ord Version] in
/-- The oldest date that a filter with an age accepts, where it exists. -/
theorem filterDate_eq {f : ImageFilter} {ageBasis : Datetime} (hage : f.age ≠ some 0)
    {date : Option Datetime} (h : filterDate f ageBasis = some date) (t : Datetime) :
    (∀ d ∈ date, d ≤ t) ↔
      (∀ cutoff ∈ f.cutoffDate, cutoff ≤ t) ∧ ∀ age ∈ f.age, ageBasis - age ≤ t := by
  obtain ⟨oldest, holdest, hdate⟩ : ∃ oldest : Option Datetime,
      (∀ d ∈ oldest, d ≤ t) = (∀ age ∈ f.age, ageBasis - age ≤ t) ∧
      date = f.cutoffDate.elim oldest fun cutoff ↦
        some (oldest.elim cutoff fun oldest ↦ if oldest < cutoff then cutoff else oldest) := by
    rcases hf : f.age with _ | age
    · refine ⟨none, by simp, ?_⟩
      rw [filterDate, hf] at h
      rcases hcutoff : f.cutoffDate with _ | cutoff
      · simpa [hcutoff, eq_comm] using h
      · simpa [hcutoff, eq_comm] using h
    · have hne : age ≠ 0 := fun h0 ↦ hage (by rw [hf, h0])
      have hminus : ∃ oldest, ageBasis.minus age = some oldest := by
        rw [filterDate, hf] at h
        rcases hm : ageBasis.minus age with _ | oldest
        · simp [hm] at h
        · exact ⟨oldest, rfl⟩
      obtain ⟨oldest, hm⟩ := hminus
      have hvalue : oldest = ageBasis - age := by
        rw [Datetime.minus] at hm
        exact (Option.some.inj (Option.ite_none_right_eq_some.1 hm).2).symm
      refine ⟨some oldest, by simp [hvalue], ?_⟩
      rw [filterDate, hf] at h
      rcases hcutoff : f.cutoffDate with _ | cutoff
      · simpa [hcutoff, hm, eq_comm] using h
      · simpa [hcutoff, hm, eq_comm] using h
  rw [← holdest, hdate]
  rcases f.cutoffDate with _ | cutoff
  · simp
  · rcases oldest with _ | oldest
    · simp
    · by_cases hlt : oldest < cutoff
      · simp only [Option.elim_some, if_pos hlt, Option.mem_def, Option.some.injEq, forall_eq']
        exact ⟨fun h ↦ ⟨h, hlt.le.trans h⟩, And.left⟩
      · simp only [Option.elim_some, if_neg hlt, Option.mem_def, Option.some.injEq, forall_eq']
        exact ⟨fun h ↦ ⟨(not_lt.1 hlt).trans h, h⟩, And.right⟩

/-- What the rules pass over. -/
theorem rejects_iff {f : ImageFilter} {date : Option Datetime} {tag : RSPImageTag} :
    rejects f date tag = true ↔
      ((∃ build ∈ tag.build, ∃ cutoff ∈ f.cutoffBuild, build ≠ 0 ∧ cutoff ≠ 0 ∧ (build : ℤ) < cutoff) ∨
        ∃ t ∈ tag.date, ∃ oldest ∈ date, t < oldest) ∨
      (tag.semantic = true ∧ ∃ version ∈ tag.version, ∃ cutoff ∈ f.cutoffVersion,
        Ord.compare version cutoff = .lt) := by
  unfold rejects
  rw [Bool.or_eq_true, Bool.or_eq_true, Bool.and_eq_true]
  refine or_congr (or_congr ?_ ?_) (and_congr_right fun _ ↦ ?_)
  · rcases tag.build with _ | build
    · simp
    · rcases f.cutoffBuild with _ | cutoff <;> simp [and_assoc]
  · rcases tag.date with _ | t
    · simp
    · rcases date with _ | oldest <;> simp
  · rcases tag.version with _ | version
    · simp
    · rcases f.cutoffVersion with _ | cutoff <;> simp

/-- **Where no zero is involved the rules pass over exactly the tags that miss a criterion.** -/
theorem rejects_eq {f : ImageFilter} {ageBasis : Datetime} {date : Option Datetime}
    {tag : RSPImageTag} (hage : f.age ≠ some 0) (hdate : filterDate f ageBasis = some date)
    (hbuild : tag.build = some 0 → ∀ cutoff ∈ f.cutoffBuild, cutoff ≤ 0) :
    rejects f date tag = !decide (Meets f ageBasis tag) := by
  have hbuilds : (∃ build ∈ tag.build, ∃ cutoff ∈ f.cutoffBuild,
      build ≠ 0 ∧ cutoff ≠ 0 ∧ (build : ℤ) < cutoff) ↔
      ¬ ∀ build ∈ tag.build, ∀ cutoff ∈ f.cutoffBuild, cutoff ≤ (build : ℤ) := by
    push Not
    refine exists_congr fun build ↦ and_congr_right fun hb ↦
      exists_congr fun cutoff ↦ and_congr_right fun hc ↦ ?_
    have hzero : build = 0 → cutoff ≤ 0 := fun h0 ↦ hbuild (h0 ▸ hb) cutoff hc
    omega
  have hdates : (∃ t ∈ tag.date, ∃ oldest ∈ date, t < oldest) ↔
      ¬ ∀ t ∈ tag.date, (∀ cutoff ∈ f.cutoffDate, cutoff ≤ t) ∧
        ∀ age ∈ f.age, ageBasis - age ≤ t := by
    simp only [← filterDate_eq hage hdate]
    push Not
    rfl
  have hversions : (tag.semantic = true ∧ ∃ version ∈ tag.version, ∃ cutoff ∈ f.cutoffVersion,
      Ord.compare version cutoff = .lt) ↔ ¬ (tag.semantic = true → ∀ version ∈ tag.version,
        ∀ cutoff ∈ f.cutoffVersion, Ord.compare version cutoff ≠ .lt) := by
    push Not
    rfl
  rw [Bool.eq_iff_iff, rejects_iff, hbuilds, hdates, hversions, Bool.not_eq_true',
    decide_eq_false_iff_not, Meets, ← not_and_or, ← not_and_or, and_assoc]

/-- **What a filter yields of the tags of one type** is what it should yield. -/
theorem filterImageList_wanted {tags : List T} {policy : Option ImageFilter} {ageBasis : Datetime}
    (hrange : InRange policy ageBasis) (hzero : ∀ f ∈ policy, ZeroFree view tags f)
    (removeArchSpecific : Bool) :
    filterImageList view tags policy ageBasis false removeArchSpecific =
      some (wanted view tags policy ageBasis removeArchSpecific) := by
  rw [filterImageList_eq, if_pos hrange]
  rcases policy with _ | f
  · rfl
  have hfree := hzero f rfl
  obtain ⟨date, hdate⟩ := Option.isSome_iff_exists.1 (hrange f rfl)
  have hmet : (candidates view tags removeArchSpecific).filter (fun tag ↦
      !rejects f ((filterDate f ageBasis).getD none) (view tag)) =
      (candidates view tags removeArchSpecific).filter fun tag ↦ Meets f ageBasis (view tag) := by
    refine List.filter_congr fun tag htag ↦ ?_
    rw [hdate, Option.getD_some, rejects_eq hfree.age hdate
      (hfree.build tag (List.mem_of_mem_filter htag)), Bool.not_not]
  simp only [Bool.false_eq_true, if_false, accepted, wanted, Option.elim_some, takeAccepted_eq, hmet]
  rcases hnumber : f.number with _ | _ | n
  · rfl
  · exact absurd hnumber hfree.number
  · rfl

/-- **A filter keeps exactly the tags that meet every criterion**, up to the number, type by type and
in sorted order, where the dates it computes exist and no zero is involved. -/
theorem filter_exact (c : RSPImageTagCollection T) (policy : ImageFilterPolicy) (ageBasis : Datetime)
    (removeArchSpecific : Bool) (hrange : ∀ t, InRange (policy.forImageType t) ageBasis)
    (hzero : ∀ t, ∀ f ∈ policy.forImageType t, ZeroFree view (c.byType t) f) :
    c.filter view policy ageBasis false removeArchSpecific =
      some (RSPImageType.all.flatMap fun t ↦
        wanted view (c.byType t) (policy.forImageType t) ageBasis removeArchSpecific) := by
  have hall : (RSPImageType.all.mapM fun t ↦ filterImageList view (c.byType t)
      (policy.forImageType t) ageBasis false removeArchSpecific) =
      some (RSPImageType.all.map fun t ↦
        wanted view (c.byType t) (policy.forImageType t) ageBasis removeArchSpecific) := by
    simp only [filterImageList_wanted (hrange _) (hzero _)]
    exact List.mapM_pure
  rw [filter, hall, Option.map_some, List.flatMap_def]

end Filters

section Sample

local instance : Ord Version := semverPrecedence

local instance : Std.TransOrd Version := semverPrecedence_transOrd

/-- The newest weekly image, and the one before it by name. -/
theorem subset_selects_sample : ∃ c c',
    build (["w_2021_21", "w_2021_22"].map RSPImageTag.fromStr) [] = some c ∧
      c.subset id insertionOrder 0 1 0 {"w_2021_21"} true = some c' ∧
      SelectsOnce id c 0 1 0 {"w_2021_21"} true c' := by
  obtain ⟨c, c', hbuild, hsubset, hiff⟩ := subset_selects_iff id insertionOrder
    (["w_2021_21", "w_2021_22"].map RSPImageTag.fromStr) []
    (by simpa using ⟨⟨_, Or.inl rfl⟩, ⟨_, Or.inl rfl⟩⟩) (by decide +kernel) 0 1 0 {"w_2021_21"} true
  refine ⟨c, c', hbuild, hsubset, hiff.2 ?_⟩
  have hcounted : (build (["w_2021_21", "w_2021_22"].map RSPImageTag.fromStr) []).map
      (fun c ↦ c.counted id 0 1 0 true) = some [RSPImageTag.fromStr "w_2021_22"] := by
    decide +kernel
  rw [hbuild, Option.map_some] at hcounted
  rw [Option.some.inj hcounted]
  decide +kernel

/-- **A tag that occurs twice**: the newest weekly image, which is also asked for by name. -/
theorem subset_repeats : ∃ c c',
    build (["w_2021_21", "w_2021_22"].map RSPImageTag.fromStr) [] = some c ∧
      c.subset id insertionOrder 0 1 0 {"w_2021_22"} true = some c' ∧
      ¬ SelectsOnce id c 0 1 0 {"w_2021_22"} true c' := by
  have hrepeated : ((build (["w_2021_21", "w_2021_22"].map RSPImageTag.fromStr) []).bind fun c ↦
      (c.subset id insertionOrder 0 1 0 {"w_2021_22"} true).map fun c' ↦ c'.allTags id false) =
      some [.fromStr "w_2021_22", .fromStr "w_2021_22"] := by
    decide +kernel
  obtain ⟨c, hbuild, hsubset⟩ := Option.bind_eq_some_iff.1 hrepeated
  obtain ⟨c', hc', htags⟩ := Option.map_eq_some_iff.1 hsubset
  refine ⟨c, c', hbuild, hc', fun h ↦ ?_⟩
  have hnodup := h.nodup
  rw [htags] at hnodup
  simp at hnodup

/-- The newest weekly image is what is wanted, and what the filter yields. -/
theorem filter_exact_sample :
    (ofNames ["w_2021_21", "w_2021_22"]).filter id newestWeekly 0 false true =
      some [.fromStr "w_2021_22"] ∧
    (RSPImageType.all.flatMap fun t ↦ wanted id ((ofNames ["w_2021_21", "w_2021_22"]).byType t)
      (newestWeekly.forImageType t) 0 true) = [.fromStr "w_2021_22"] := by
  have hexact := @filter_exact _ _ id (ofNames ["w_2021_21", "w_2021_22"]) newestWeekly 0 true
    (fun t ↦ by cases t <;> decide +kernel) fun t f hf ↦ by
      have hf : f = { number := some 1 } ∨ f = {} := by
        cases t <;> simp [newestWeekly, ImageFilterPolicy.forImageType] at hf <;> simp [← hf]
      rcases hf with rfl | rfl
      · exact ⟨by simp, by simp, by simp⟩
      · exact ⟨by simp, by simp, by simp⟩
  have hwanted : (RSPImageType.all.flatMap fun t ↦
      wanted id ((ofNames ["w_2021_21", "w_2021_22"]).byType t) (newestWeekly.forImageType t) 0
        true) = [.fromStr "w_2021_22"] := by
    decide +kernel
  exact ⟨hexact.trans (congrArg some hwanted), hwanted⟩

/-- Keep no weekly image. -/
def noWeekly : ImageFilterPolicy := { weekly := { number := some 0 } }

/-- Experimental images from version 22 on. -/
def recentExperimental : ImageFilterPolicy where
  experimental := { cutoffVersion := some ⟨22, 0, 0, none, none⟩ }

/-- **Filters that yield other tags.** With a number of zero all weekly images are yielded and not the
first zero of them; an experimental image is left out because of a version, although it is neither a
release nor a candidate; and an age of a thousand years is out of range in year three. -/
theorem filter_not_exact :
    ((ofNames ["w_2021_21"]).filter id noWeekly 0 false true = some [.fromStr "w_2021_21"] ∧
      (RSPImageType.all.flatMap fun t ↦
        wanted id ((ofNames ["w_2021_21"]).byType t) (noWeekly.forImageType t) 0 true) = []) ∧
    ((ofNames ["exp_r21_0_0"]).filter id recentExperimental 0 false true = some [] ∧
      ∃ tag ∈ (ofNames ["exp_r21_0_0"]).byType .experimental, tag.build = none ∧ tag.date = none ∧
        tag.imageType.isSemantic = false) ∧
    (ofNames ["w_2021_21"]).filter id millennium (732 * 86400000000) false true = none := by
  refine ⟨⟨by decide +kernel, by decide +kernel⟩, ⟨by decide +kernel,
    RSPImageTag.fromStr "exp_r21_0_0", ?_, by decide +kernel, by decide +kernel, by decide +kernel⟩, ?_⟩
  · decide +kernel
  · decide +kernel

end Sample

end RSPImageTagCollection

end Nublado.Images
