import Nublado.Images.TagCollection

/-!
# Tags of one type are totally preordered

`compare_total_preorder`: on tags made by `fromStr` or `alias`, the comparison of tags of one type is
reflexive, antisymmetric in sign and transitive; so a collection keeps the list of every type sorted
from greatest to least, whatever the order in which the tags arrive, and its latest tag of a type is
not less than any other. What it assumes of the version package is that the precedence of versions is
a total preorder.
-/

namespace Nublado.Images

namespace RSPImageTag

/-- A tag made by `fromStr` or `alias`. -/
def Parsed (title : String → String) (t : RSPImageTag) : Prop :=
  ∃ s, t = fromStr s ∨ RSPImageTag.alias title s = some t

theorem Parsed.ranked {title : String → String} {t : RSPImageTag} (h : t.Parsed title) :
    t.Ranked := by
  obtain ⟨s, rfl | h⟩ := h
  · exact fromStr_ranked s
  · exact alias_ranked h

/-- Everything that the comparison reads of a tag besides its type. -/
def components (t : RSPImageTag) :
    Option String × Option Version × Option ℕ × Option ℕ × Option ℕ × Option String ×
      Option String :=
  (t.base, t.version, t.cycle, t.cycleBuild, t.build, t.extra, t.architecture)

variable [Ord Version] [Std.TransOrd Version]

/-- Tags with equal components rank equally. -/
theorem rank_eq_of_components {a b : RSPImageTag} (h : a.components = b.components) :
    rank a b = .eq := by
  have hself : rank b b = .eq := Std.ReflCmp.compare_self
  simp only [components, Prod.mk.injEq] at h
  obtain ⟨hbase, hversion, hcycle, hcycleBuild, hbuild, hextra, harchitecture⟩ := h
  rw [← hself]
  simp only [rank, compareLex, hbase, hversion, hcycle, hcycleBuild, hbuild, hextra, harchitecture]

end RSPImageTag

namespace RSPImageTagCollection

variable [Ord Version]

/-- A collection made of `tags`, to which `added` are then added one at a time. -/
def build (tags added : List RSPImageTag) : Option (RSPImageTagCollection RSPImageTag) :=
  (init id tags).bind fun c ↦ added.foldlM (add id) c

/-- The list of each type is what sorting makes of the tags of that type in some order. -/
def Sorted (c : RSPImageTagCollection RSPImageTag) : Prop :=
  ∀ t, ∃ tags : List RSPImageTag, c.byType t = sorted id tags

theorem Sorted.add {c c' : RSPImageTagCollection RSPImageTag} {tags : List RSPImageTag}
    {tag : RSPImageTag} (h : c.Sorted) (hindexed : Indexed id c tags)
    (hadd : RSPImageTagCollection.add id c tag = some c') : c'.Sorted := by
  rw [add_eq hindexed] at hadd
  obtain rfl := Option.some.inj hadd
  intro t
  rcases eq_or_ne t tag.imageType with rfl | hne
  · exact ⟨_, Function.update_self _ _ _⟩
  · obtain ⟨sources, hsources⟩ := h t
    exact ⟨sources, by simpa [hne] using hsources⟩

/-- **What building a collection gives**: no step raises, the tags are all there, and every list is
sorted. -/
theorem build_spec (tags added : List RSPImageTag) :
    ∃ c, build tags added = some c ∧ Indexed id c (tags ++ added) ∧ c.Sorted := by
  have hadds : ∀ added tags (c : RSPImageTagCollection RSPImageTag), Indexed id c tags → c.Sorted →
      ∃ c', added.foldlM (RSPImageTagCollection.add id) c = some c' ∧
        Indexed id c' (tags ++ added) ∧ c'.Sorted := by
    intro added
    induction added with
    | nil =>
      intro tags c hindexed hsorted
      exact ⟨c, rfl, by simpa using hindexed, hsorted⟩
    | cons tag added ih =>
      intro tags c hindexed hsorted
      obtain ⟨c', hc'⟩ : ∃ c', RSPImageTagCollection.add id c tag = some c' :=
        ⟨_, add_eq hindexed tag⟩
      obtain ⟨c'', hfold, hindexed', hsorted'⟩ :=
        ih (tags ++ [tag]) c' (add_indexed hindexed hc') (hsorted.add hindexed hc')
      refine ⟨c'', ?_, by simpa using hindexed', hsorted'⟩
      rw [List.foldlM_cons, hc']
      exact hfold
  obtain ⟨c, hc⟩ : ∃ c, init id tags = some c := ⟨_, init_eq tags⟩
  have hsorted : c.Sorted := by
    rw [init_eq] at hc
    obtain rfl := Option.some.inj hc
    exact fun t ↦ ⟨_, rfl⟩
  obtain ⟨c', hfold, h⟩ := hadds added tags c (init_indexed hc) hsorted
  refine ⟨c', ?_, h⟩
  rw [build, hc]
  exact hfold

variable [Std.TransOrd Version]

/-- A sorted list of comparable parsed tags never has a lesser tag before a greater one. -/
theorem sorted_pairwise {tags : List RSPImageTag} (hranked : ∀ t ∈ tags, t.Ranked)
    (htype : ∀ a ∈ tags, ∀ b ∈ tags, a.imageType = b.imageType) :
    (sorted id tags).Pairwise fun a b ↦ RSPImageTag.rank a b ≠ .lt := by
  refine sortDescending_pairwise fun a ha b hb ↦ ?_
  have hrank := RSPImageTag.compare_eq_rank (hranked a ha) (hranked b hb) (htype a ha b hb)
  simp [RSPImageTag.lt, hrank]

/-- No list of a collection of parsed tags has a lesser tag before a greater one. -/
theorem Sorted.pairwise {c : RSPImageTagCollection RSPImageTag} {tags : List RSPImageTag}
    (h : c.Sorted) (hindexed : Indexed id c tags) (hranked : ∀ t ∈ tags, t.Ranked)
    (type : RSPImageType) : (c.byType type).Pairwise fun a b ↦ RSPImageTag.rank a b ≠ .lt := by
  obtain ⟨sources, hsources⟩ := h type
  have hmem : ∀ t ∈ sources, t ∈ tags ∧ t.imageType = type := fun t ht ↦ by
    have hsame : t ∈ c.byType type := by
      rw [hsources]
      simpa [sorted] using ht
    exact hindexed.mem_byType.1 hsame
  rw [hsources]
  exact sorted_pairwise (fun t ht ↦ hranked t (hmem t ht).1) fun a ha b hb ↦
    (hmem a ha).2.trans (hmem b hb).2.symm

end RSPImageTagCollection

open RSPImageTagCollection in
/-- **Tags of one type are totally preordered, and collections keep them sorted.** -/
theorem compare_total_preorder [Ord Version] [Std.TransOrd Version] (title : String → String) :
    (∀ a b c : RSPImageTag, a.Parsed title → b.Parsed title → c.Parsed title →
      a.imageType = b.imageType → b.imageType = c.imageType →
      ∃ ab bc ac : Ordering, a.compare b = some ab ∧ b.compare a = some ab.swap ∧
        b.compare c = some bc ∧ a.compare c = some ac ∧
        (a.components = b.components → ab = .eq) ∧ (ab.isLE → bc.isLE → ac.isLE)) ∧
    ∀ tags added : List RSPImageTag, (∀ t ∈ tags ++ added, t.Parsed title) →
      ∃ c, build tags added = some c ∧ ∀ type,
        (c.byType type).Perm ((tags ++ added).filter fun t ↦ t.imageType = type) ∧
        (c.byType type).Pairwise (fun a b ↦ a.lt b = some false) ∧
        ((c.latest type).isSome ↔ ∃ t ∈ tags ++ added, t.imageType = type) ∧
        ∀ t, c.latest type = some t → ∀ u ∈ tags ++ added, u.imageType = type →
          t.lt u = some false := by
  constructor
  · intro a b c ha hb hc hab hbc
    refine ⟨RSPImageTag.rank a b, RSPImageTag.rank b c, RSPImageTag.rank a c,
      RSPImageTag.compare_eq_rank ha.ranked hb.ranked hab, ?_,
      RSPImageTag.compare_eq_rank hb.ranked hc.ranked hbc,
      RSPImageTag.compare_eq_rank ha.ranked hc.ranked (hab.trans hbc),
      RSPImageTag.rank_eq_of_components, Std.TransCmp.isLE_trans⟩
    rw [RSPImageTag.compare_eq_rank hb.ranked ha.ranked hab.symm, ← Std.OrientedCmp.eq_swap]
  · intro tags added hparsed
    obtain ⟨c, hc, hindexed, hsorted⟩ := build_spec tags added
    refine ⟨c, hc, fun type ↦ ?_⟩
    have hmem : ∀ {t}, t ∈ c.byType type ↔ t ∈ tags ++ added ∧ t.imageType = type :=
      hindexed.mem_byType
    have hranked : ∀ t ∈ c.byType type, t.Ranked := fun t ht ↦ (hparsed t (hmem.1 ht).1).ranked
    have hlt : ∀ a ∈ c.byType type, ∀ b ∈ c.byType type, RSPImageTag.rank a b ≠ .lt →
        a.lt b = some false := by
      intro a ha b hb hrank
      rw [RSPImageTag.lt, RSPImageTag.compare_eq_rank (hranked a ha) (hranked b hb)
        ((hmem.1 ha).2.trans (hmem.1 hb).2.symm)]
      simpa using hrank
    have hpairwise : (c.byType type).Pairwise fun a b ↦ RSPImageTag.rank a b ≠ .lt :=
      hsorted.pairwise hindexed (fun t ht ↦ (hparsed t ht).ranked) type
    refine ⟨hindexed.byType type, ?_, ?_, ?_⟩
    · exact hpairwise.imp_of_mem fun ha hb ↦ hlt _ ha _ hb
    · rw [latest, List.isSome_head?]
      constructor
      · intro hne
        obtain ⟨t, ht⟩ := List.exists_mem_of_ne_nil _ hne
        exact ⟨t, hmem.1 ht⟩
      · rintro ⟨t, ht⟩
        exact List.ne_nil_of_mem (hmem.2 ht)
    · intro t ht u hu htype
      have hu : u ∈ c.byType type := hmem.2 ⟨hu, htype⟩
      exact hlt t (List.mem_of_mem_head? ht) u hu (not_lt_of_head hpairwise ht hu)

section Sample

/-- Semantic version precedence, for versions whose pre-release is a single identifier. -/
local instance semverPrecedence : Ord Version where
  compare := compareLex (compareOn Version.major) <| compareLex (compareOn Version.minor) <|
    compareLex (compareOn Version.patch) fun a b ↦
      RSPImageTag.compareStr a.prerelease b.prerelease true

local instance semverPrecedence_transOrd : Std.TransOrd Version := by
  have hprerelease : Std.TransCmp fun a b : Version ↦
      RSPImageTag.compareStr a.prerelease b.prerelease true :=
    transCmp_comap (fun a b ↦ RSPImageTag.compareStr a b true) Version.prerelease
  exact inferInstanceAs <| Std.TransCmp <| compareLex (compareOn Version.major) <|
    compareLex (compareOn Version.minor) <| compareLex (compareOn Version.patch) fun a b ↦
      RSPImageTag.compareStr a.prerelease b.prerelease true

/-- Experimental tags with a version and one without, and a collection of them. -/
theorem compare_total_preorder_sample :
    let a := RSPImageTag.fromStr "exp_w_2021_13"
    let b := RSPImageTag.fromStr "exp_w_2021_14"
    let c := RSPImageTag.fromStr "exp_random"
    (a.compare b = some .lt ∧ b.compare c = some .lt ∧ ∃ ac, a.compare c = some ac ∧ ac.isLE) ∧
      ∃ d, RSPImageTagCollection.build [a, c] [b] = some d ∧
        (d.byType .experimental).Pairwise fun a b ↦ a.lt b = some false := by
  intro a b c
  have hparsed : ∀ s, (RSPImageTag.fromStr s).Parsed id := fun s ↦ ⟨s, Or.inl rfl⟩
  have hab : a.compare b = some .lt := by decide +kernel
  have hbc : b.compare c = some .lt := by decide +kernel
  obtain ⟨_, _, ac, hab', -, hbc', hac, -, htrans⟩ := (compare_total_preorder id).1 a b c
    (hparsed _) (hparsed _) (hparsed _) (by decide +kernel) (by decide +kernel)
  obtain rfl := Option.some.inj (hab.symm.trans hab')
  obtain rfl := Option.some.inj (hbc.symm.trans hbc')
  obtain ⟨d, hd, hsorted⟩ := (compare_total_preorder id).2 [a, c] [b] (by simp [a, b, c, hparsed])
  exact ⟨⟨hab, hbc, ac, hac, htrans rfl rfl⟩, d, hd, (hsorted .experimental).2.1⟩

end Sample

end Nublado.Images
