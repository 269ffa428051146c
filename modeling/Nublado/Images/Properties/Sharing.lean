import Nublado.Images.Coverage
import Nublado.Images.Reindexing
import Nublado.Images.Properties.Construction
import Nublado.Images.Properties.Selection
import Nublado.Images.Properties.Subtraction

/-!
# Collections that share images

A subset or a difference is a new collection of the same image objects, and building it resolves aliases
again, among the images that were selected and in the order in which they are listed.

* `subset_undisturbed_iff`: subtracting disturbs nothing, since a difference has one image for each
  digest. Taking a subset disturbs nothing exactly if the images that are selected of each digest find
  each other as before (`Resettles`).
* `subset_disturbs` is the smallest failure: the weekly image that is found under a digest is not the
  newest one. A subset with the newest weekly image and an alias resolves that alias to another image,
  and does so for the original collection as well.
-/

namespace Nublado.Images

namespace RSPImageCollection

variable {c : RSPImageCollection} {title : String → String} {base : Heap RSPImage} {l s rest : List ℕ}
  {c₀ : RSPImageCollection} {d : String} {r t x y : ℕ}

/-! ### Selections -/

/-- The images in a subset, as it lists them: the newest ones of some types and those that are asked for
by name, by type and in descending order. -/
def selected [Ord Version] (order : SetOrder) (releases weeklies dailies : ℕ)
    (included : Finset String) (removeArchSpecific : Bool) (c : RSPImageCollection) : List ℕ :=
  RSPImageType.all.flatMap fun t ↦ RSPImageTagCollection.sorted c.view <|
    (c.collection.counted c.view releases weeklies dailies removeArchSpecific ++
      (order.toList included).filterMap c.imageForTagName).filter fun x ↦ (c.view x).imageType = t

/-- **What the images selected must be like for nothing to change.** Of each digest, where `r` is found
under it and `t` is the first that is selected, targets before possible aliases, that one is selected
once only, and

* it is a possible alias although the digest has a target, or
* it is the one that is found, and no two others differ: both are targets or both are possible aliases,
  or, if the digest has no target, both are the same; or
* nothing but `r` is selected besides. -/
def Resettles (c : RSPImageCollection) (s : List ℕ) : Prop :=
  ∀ d r t rest, c.imageForDigest d = some r →
    ((indexOrder c.images s).filter fun x ↦ (c.images x).digest = d) = t :: rest →
    t ∉ rest ∧
      ((c.images t).isPossibleAlias = true ∧ (c.images r).isPossibleAlias = false ∨
        (t = r ∧ ∀ x ∈ rest, ∀ y ∈ rest, if (c.images r).isPossibleAlias then x = y
          else (c.images x).isPossibleAlias = (c.images y).isPossibleAlias) ∨
        ∀ x ∈ rest, x = r)

/-- **A collection is not disturbed** if its images and everything that it answers stay the same. -/
structure Undisturbed (c : RSPImageCollection) (images : Heap RSPImage) : Prop where
  image : ∀ x ∈ c.allImages false false, images x = c.images x
  imageForDigest : ∀ d,
    ({ c with images } : RSPImageCollection).imageForDigest d = c.imageForDigest d
  imageForTagName : ∀ name,
    ({ c with images } : RSPImageCollection).imageForTagName name = c.imageForTagName name
  latest : ∀ t, ({ c with images } : RSPImageCollection).latest t = c.latest t
  allImages : ∀ hideAliased hideArchSpecific hideResolvedAliases,
    ({ c with images } : RSPImageCollection).allImages hideAliased hideArchSpecific
      hideResolvedAliases = c.allImages hideAliased hideArchSpecific hideResolvedAliases

/-- Nothing is disturbed if the images are the same. -/
theorem undisturbed_self (c : RSPImageCollection) : c.Undisturbed c.images :=
  ⟨fun _ _ ↦ rfl, fun _ ↦ rfl, fun _ ↦ rfl, fun _ ↦ rfl, fun _ _ _ ↦ rfl⟩

/-- **A subset is the collection of the images selected.** -/
theorem subset_eq [Ord Version] (order : SetOrder) (title : String → String)
    (releases weeklies dailies : ℕ) (included : Finset String) (removeArchSpecific : Bool)
    (c : RSPImageCollection) :
    c.subset order title releases weeklies dailies included removeArchSpecific =
      init order title c.images
        (c.selected order releases weeklies dailies included removeArchSpecific) := by
  rw [subset, RSPImageTagCollection.subset, RSPImageTagCollection.init_eq]
  simp only [RSPImageTagCollection.firstTags_eq, RSPImageTagCollection.allTags]
  congr 1
  rw [selected]
  refine List.flatMap_congr fun t _ ↦ ?_
  rw [List.filter_eq_self.2 (by simp)]
  rfl

/-- The images selected are images of the collection. -/
theorem mem_of_mem_selected [Ord Version] {order : SetOrder} {releases weeklies dailies : ℕ}
    {included : Finset String} {removeArchSpecific : Bool}
    (h : RSPImageTagCollection.Indexed c.view c.collection l)
    (hx : x ∈ c.selected order releases weeklies dailies included removeArchSpecific) : x ∈ l := by
  obtain ⟨t, -, hx⟩ := List.mem_flatMap.1 hx
  have hx := List.mem_of_mem_filter ((sortDescending_perm _ _).mem_iff.1 hx)
  rcases List.mem_append.1 hx with hx | hx
  · exact RSPImageTagCollection.mem_of_mem_counted h hx
  · obtain ⟨name, -, hname⟩ := List.mem_filterMap.1 hx
    rw [imageForTagName, RSPImageTagCollection.tagForTagName, h.byTag] at hname
    exact List.mem_reverse.1 (List.mem_of_find?_eq_some hname)

/-! ### The images of one digest -/

/-- Two images of a list without repetition are in one order only. -/
theorem pair_sublist_asymm (h : l.Nodup) (hxy : [x, y].Sublist l) : ¬ [y, x].Sublist l := by
  induction l with
  | nil => simp at hxy
  | cons z l ih =>
    obtain ⟨hz, hnodup⟩ := List.nodup_cons.1 h
    intro hyx
    rcases List.sublist_cons_iff.1 hxy with hxy' | ⟨tail, htail, hsub⟩
    · rcases List.sublist_cons_iff.1 hyx with hyx' | ⟨tail, htail, hsub⟩
      · exact ih hnodup hxy' hyx'
      · obtain ⟨rfl, -⟩ := List.cons_eq_cons.1 htail
        exact hz (hxy'.subset (by simp))
    · obtain ⟨rfl, rfl⟩ := List.cons_eq_cons.1 htail
      have hy : y ∈ l := List.singleton_sublist.1 hsub
      rcases List.sublist_cons_iff.1 hyx with hyx' | ⟨tail, htail, -⟩
      · exact hz (hyx'.subset (by simp))
      · obtain ⟨rfl, -⟩ := List.cons_eq_cons.1 htail
        exact hz hy

/-- Images of a digest that are selected: targets come first. -/
theorem filter_indexOrder (s : List ℕ) (d : String) :
    (indexOrder base s).filter (fun x ↦ (base x).digest = d) =
      indexOrder base (s.filter fun x ↦ (base x).digest = d) := by
  simp only [indexOrder, List.filter_append, List.filter_filter, Bool.and_comm]

/-- If the first one is a possible alias, all others are. -/
theorem possible_of_first (h : indexOrder base s = t :: rest)
    (ht : (base t).isPossibleAlias = true) (hx : x ∈ s) : (base x).isPossibleAlias = true := by
  by_contra hxp
  have hmem : x ∈ s.filter fun x ↦ !(base x).isPossibleAlias :=
    List.mem_filter.2 ⟨hx, by simpa using hxp⟩
  rw [indexOrder] at h
  rcases hfilter : s.filter fun x ↦ !(base x).isPossibleAlias with _ | ⟨t', others⟩
  · rw [hfilter] at hmem
    cases hmem
  · rw [hfilter] at h
    obtain ⟨rfl, -⟩ := List.cons_eq_cons.1 h
    have ht' : t' ∈ s.filter fun x ↦ !(base x).isPossibleAlias := hfilter ▸ List.mem_cons_self
    simpa [ht] using (List.mem_filter.1 ht').2

section Digest

variable (h : Settled title base l c₀) (hs : ∀ x ∈ s, x ∈ l) (hr : firstOf base l d = some r)
  (hmem : ∀ x, x ∈ t :: rest ↔ x ∈ s ∧ (base x).digest = d)

include hs hr hmem in
/-- Whether two of the images selected know each other. -/
theorem knows_selected (hx : x ∈ t :: rest) (hy : y ∈ t :: rest) : Knows base l x y ↔
    x ≠ y ∧ (x = r ∨ if (base r).isPossibleAlias then y = r ∨ [x, y].Sublist l
      else if y = r then (base x).isPossibleAlias = false
      else (base x).isPossibleAlias ∨ (base y).isPossibleAlias) := by
  obtain ⟨hxs, hxd⟩ := (hmem x).1 hx
  obtain ⟨hys, hyd⟩ := (hmem y).1 hy
  rcases eq_or_ne x y with rfl | hne
  · simp [not_knows_self]
  · rw [knows_iff (hs x hxs) (hs y hys) hne (hxd.trans hyd.symm) (hxd ▸ hr)]
    simp [hne]

include hmem in
/-- What is known to one of them and is selected is one of them. -/
theorem mem_of_knows (hx : x ∈ t :: rest) (hy : y ∈ s) (hxy : Knows base l x y) : y ∈ t :: rest :=
  (hmem y).2 ⟨hy, hxy.2.2.2.1.symm.trans ((hmem x).1 hx).2⟩

include hs hr hmem in
/-- The first one is a target, and so is the one that is found. -/
theorem harmless_target (ht : (base t).isPossibleAlias = false)
    (hrp : (base r).isPossibleAlias = false) :
    (∀ x ∈ rest, Harmless base l s c₀ t x) ↔ t ∉ rest ∧
      ((t = r ∧ ∀ x ∈ rest, ∀ y ∈ rest, (base x).isPossibleAlias = (base y).isPossibleAlias) ∨
        ∀ x ∈ rest, x = r) := by
  have htd : (base t).digest = d := ((hmem t).1 List.mem_cons_self).2
  have hknows : ∀ {x y}, x ∈ t :: rest → y ∈ t :: rest → (Knows base l x y ↔ x ≠ y ∧ (x = r ∨
      if y = r then (base x).isPossibleAlias = false
      else (base x).isPossibleAlias ∨ (base y).isPossibleAlias)) := fun hx hy ↦ by
    rw [knows_selected hs hr hmem hx hy, if_neg (by simp [hrp])]
  have htmem : t ∈ t :: rest := List.mem_cons_self
  have hself : ∀ {y}, y ∈ t :: rest → y ≠ t → y ∈ rest := fun hy hne ↦
    (List.mem_cons.1 hy).resolve_left hne
  constructor
  · intro hall
    have hnew : t ∉ rest := fun hmemt ↦ by
      have hharmless := hall t hmemt
      rw [Harmless, if_neg (by simp [ht])] at hharmless
      exact not_knows_self hharmless.1
    refine ⟨hnew, ?_⟩
    rcases eq_or_ne t r with rfl | htr
    · -- A target besides the first one would make an alias know the first one.
      have hsame : ∀ x ∈ rest, ∀ y ∈ rest, (base x).isPossibleAlias = false →
          (base y).isPossibleAlias = false := by
        intro x hx y hy hxp
        by_contra hyp
        have hyp : (base y).isPossibleAlias = true := by simpa using hyp
        have hxy : x ≠ y := fun heq ↦ by simp [heq, hyp] at hxp
        have hyt : y ≠ t := fun heq ↦ hnew (heq ▸ hy)
        have hx' := List.mem_cons_of_mem t hx
        have hy' := List.mem_cons_of_mem t hy
        have hharmless := hall x hx
        rw [Harmless, if_neg (by simp [hxp])] at hharmless
        have hback := (hharmless.2.2 y ((hmem y).1 hy').1
          ((hknows hx' hy').2 ⟨hxy, by simp [hyt, hyp]⟩) hyt).2.1
        rw [hknows hy' htmem] at hback
        simp [hyt, hyp] at hback
      refine Or.inl ⟨rfl, fun x hx y hy ↦ ?_⟩
      rcases hxp : (base x).isPossibleAlias with _ | _
      · exact (hsame x hx y hy hxp).symm
      · by_contra hyp
        have hyp : (base y).isPossibleAlias = false := by simpa using Ne.symm hyp
        simp [hsame y hy x hx hyp] at hxp
    · refine Or.inr fun x hx ↦ ?_
      have hharmless := hall x hx
      rcases hxp : (base x).isPossibleAlias with _ | _
      · rw [Harmless, if_neg (by simp [hxp])] at hharmless
        have htx := hharmless.1
        rw [hknows htmem (List.mem_cons_of_mem t hx)] at htx
        by_contra hxr
        simp [htr, hxr, ht, hxp] at htx
      · rw [Harmless, if_pos hxp, HarmlessAlias, if_neg (by simp [ht]), htd, hr] at hharmless
        exact absurd (Option.some.inj hharmless).symm htr
  · rintro ⟨hnew, hcases⟩ x hx
    have hx' := List.mem_cons_of_mem t hx
    have hxt : x ≠ t := fun heq ↦ hnew (heq ▸ hx)
    rcases hcases with ⟨rfl, hsame⟩ | hsame
    · rcases hxp : (base x).isPossibleAlias with _ | _
      · rw [Harmless, if_neg (by simp [hxp])]
        refine ⟨(hknows htmem hx').2 ⟨hxt.symm, Or.inl rfl⟩,
          (hknows hx' htmem).2 ⟨hxt, Or.inr (by simp [hxp])⟩, fun y hy hxy hyt ↦ ?_⟩
        have hy' := mem_of_knows hmem hx' hy hxy
        have hyp := (hsame x hx y (hself hy' hyt)).symm.trans hxp
        rw [hknows hx' hy'] at hxy
        simp [hxt, hyt, hxp, hyp] at hxy
      · rw [Harmless, if_pos hxp, HarmlessAlias, if_neg (by simp [ht]), htd, hr]
    · obtain rfl := hsame x hx
      rw [Harmless, if_neg (by simp [hrp])]
      refine ⟨(hknows htmem hx').2 ⟨hxt.symm, Or.inr (by simp [ht])⟩,
        (hknows hx' htmem).2 ⟨hxt, Or.inl rfl⟩, fun y hy hxy hyt ↦ ?_⟩
      have hy' := hself (mem_of_knows hmem hx' hy hxy) hyt
      exact absurd (hsame y hy') fun heq ↦ not_knows_self (heq ▸ hxy)

include hs hr hmem in
/-- The first one is a possible alias, and the one that is found is a target. -/
theorem harmless_alias_of_target (hp : ∀ x ∈ t :: rest, (base x).isPossibleAlias = true)
    (hrp : (base r).isPossibleAlias = false) :
    (∀ x ∈ rest, Harmless base l s c₀ t x) ↔ t ∉ rest := by
  have hknows : ∀ {x y}, x ∈ t :: rest → y ∈ t :: rest → (Knows base l x y ↔ x ≠ y) :=
    fun {x y} hx hy ↦ by
      have hne : ∀ {z}, z ∈ t :: rest → z ≠ r := fun hz heq ↦ by
        have hzp := hp _ hz
        simp [heq, hrp] at hzp
      rw [knows_selected hs hr hmem hx hy]
      simp [hrp, hne hx, hne hy, hp x hx]
  have htmem : t ∈ t :: rest := List.mem_cons_self
  have hharmless : ∀ x ∈ rest, Harmless base l s c₀ t x ↔ Knows base l x t ∧ Knows base l t x ∧
      ∀ y ∈ s, Knows base l t y → y ≠ x → Knows base l y x := fun x hx ↦ by
    rw [Harmless, if_pos (hp x (List.mem_cons_of_mem t hx)), HarmlessAlias, if_pos (hp t htmem)]
  constructor
  · exact fun hall hmemt ↦ not_knows_self ((hharmless t hmemt).1 (hall t hmemt)).1
  · intro hnew x hx
    have hx' := List.mem_cons_of_mem t hx
    have hxt : x ≠ t := fun heq ↦ hnew (heq ▸ hx)
    exact (hharmless x hx).2 ⟨(hknows hx' htmem).2 hxt, (hknows htmem hx').2 hxt.symm,
      fun y hy hty hyx ↦ (hknows (mem_of_knows hmem htmem hy hty) hx').2 hyx⟩

include h hs hr hmem in
/-- All images of the digest are possible aliases. -/
theorem harmless_alias (hp : ∀ x ∈ t :: rest, (base x).isPossibleAlias = true)
    (hrp : (base r).isPossibleAlias = true) :
    (∀ x ∈ rest, Harmless base l s c₀ t x) ↔ t ∉ rest ∧
      ((t = r ∧ ∀ x ∈ rest, ∀ y ∈ rest, x = y) ∨ ∀ x ∈ rest, x = r) := by
  have hknows : ∀ {x y}, x ∈ t :: rest → y ∈ t :: rest →
      (Knows base l x y ↔ x ≠ y ∧ (x = r ∨ y = r ∨ [x, y].Sublist l)) := fun hx hy ↦ by
    rw [knows_selected hs hr hmem hx hy, if_pos hrp]
  have htmem : t ∈ t :: rest := List.mem_cons_self
  have hharmless : ∀ x ∈ rest, Harmless base l s c₀ t x ↔ Knows base l x t ∧ Knows base l t x ∧
      ∀ y ∈ s, Knows base l t y → y ≠ x → Knows base l y x := fun x hx ↦ by
    rw [Harmless, if_pos (hp x (List.mem_cons_of_mem t hx)), HarmlessAlias, if_pos (hp t htmem)]
  -- Two images that are not found under the digest do not know each other.
  have honce : ∀ {x y}, x ∈ t :: rest → y ∈ t :: rest → x ≠ r → y ≠ r → Knows base l x y →
      ¬ Knows base l y x := fun hx hy hxr hyr hxy hyx ↦ by
    have hxy := ((hknows hx hy).1 hxy).2
    have hyx := ((hknows hy hx).1 hyx).2
    simp only [hxr, hyr, false_or] at hxy hyx
    exact pair_sublist_asymm h.nodup hxy hyx
  constructor
  · intro hall
    have hnew : t ∉ rest := fun hmemt ↦
      not_knows_self ((hharmless t hmemt).1 (hall t hmemt)).1
    refine ⟨hnew, ?_⟩
    rcases eq_or_ne t r with rfl | htr
    · refine Or.inl ⟨rfl, fun x hx y hy ↦ ?_⟩
      by_contra hxy
      have hx' := List.mem_cons_of_mem t hx
      have hy' := List.mem_cons_of_mem t hy
      have hxt : x ≠ t := fun heq ↦ hnew (heq ▸ hx)
      have hyt : y ≠ t := fun heq ↦ hnew (heq ▸ hy)
      have hyx := ((hharmless x hx).1 (hall x hx)).2.2 y ((hmem y).1 hy').1
        ((hknows htmem hy').2 ⟨hyt.symm, Or.inl rfl⟩) (Ne.symm hxy)
      have hxy := ((hharmless y hy).1 (hall y hy)).2.2 x ((hmem x).1 hx').1
        ((hknows htmem hx').2 ⟨hxt.symm, Or.inl rfl⟩) hxy
      exact honce hx' hy' hxt hyt hxy hyx
    · refine Or.inr fun x hx ↦ ?_
      by_contra hxr
      obtain ⟨hxt, htx, -⟩ := (hharmless x hx).1 (hall x hx)
      exact honce (List.mem_cons_of_mem t hx) htmem hxr htr hxt htx
  · rintro ⟨hnew, hcases⟩ x hx
    have hx' := List.mem_cons_of_mem t hx
    have hxt : x ≠ t := fun heq ↦ hnew (heq ▸ hx)
    rw [hharmless x hx]
    rcases hcases with ⟨rfl, hsame⟩ | hsame
    · refine ⟨(hknows hx' htmem).2 ⟨hxt, Or.inr (Or.inl rfl)⟩,
        (hknows htmem hx').2 ⟨hxt.symm, Or.inl rfl⟩, fun y hy hty hyx ↦ ?_⟩
      rcases List.mem_cons.1 (mem_of_knows hmem htmem hy hty) with rfl | hy
      · exact absurd hty not_knows_self
      · exact absurd (hsame y hy x hx) hyx
    · obtain rfl := hsame x hx
      refine ⟨(hknows hx' htmem).2 ⟨hxt, Or.inl rfl⟩,
        (hknows htmem hx').2 ⟨hxt.symm, Or.inr (Or.inl rfl)⟩, fun y hy hty hyx ↦ ?_⟩
      exact (hknows (mem_of_knows hmem htmem hy hty) hx').2 ⟨hyx, Or.inr (Or.inl rfl)⟩

end Digest

/-- **Every step is harmless exactly if the images selected resettle.** -/
theorem chain_iff_resettles (h : Settled title base l c₀) (hs : ∀ x ∈ s, x ∈ l) :
    Chain base (Harmless base l s c₀) [] (indexOrder base s) ↔ c₀.Resettles s := by
  have horder : indexOrder c₀.images s = indexOrder base s := by simp only [indexOrder, h.possible]
  rw [chain_iff, Resettles]
  simp only [horder, h.digest, h.possible, imageForDigest, h.byDigest]
  show (∀ d t rest, ([] : List ℕ) ++ _ = t :: rest → _) ↔ _
  simp only [List.nil_append]
  refine forall_congr' fun d ↦ ?_
  have hclass : ∀ r t rest, firstOf base l d = some r →
      ((indexOrder base s).filter fun x ↦ (base x).digest = d) = t :: rest →
      ((∀ x ∈ rest, Harmless base l s c₀ t x) ↔ t ∉ rest ∧
        ((base t).isPossibleAlias = true ∧ (base r).isPossibleAlias = false ∨
          (t = r ∧ ∀ x ∈ rest, ∀ y ∈ rest, if (base r).isPossibleAlias then x = y
            else (base x).isPossibleAlias = (base y).isPossibleAlias) ∨
          ∀ x ∈ rest, x = r)) := by
    intro r t rest hr hlist
    have hmem : ∀ x, x ∈ t :: rest ↔ x ∈ s ∧ (base x).digest = d := by
      intro x
      rw [← hlist, List.mem_filter, mem_indexOrder]
      simp
    obtain ⟨hts, htd⟩ := (hmem t).1 List.mem_cons_self
    rcases htp : (base t).isPossibleAlias with _ | _
    · have hrp : (base r).isPossibleAlias = false := by
        by_contra hrp
        have htp' := h.first d r hr (by simpa using hrp) t (hs t hts) htd
        simp [htp] at htp'
      rw [harmless_target hs hr hmem htp hrp]
      simp [hrp]
    · rw [filter_indexOrder] at hlist
      have hp : ∀ x ∈ t :: rest, (base x).isPossibleAlias = true := fun x hx ↦
        possible_of_first hlist htp (List.mem_filter.2
          ⟨((hmem x).1 hx).1, by simp [((hmem x).1 hx).2]⟩)
      rcases hrp : (base r).isPossibleAlias with _ | _
      · rw [harmless_alias_of_target hs hr hmem hp hrp]
        simp
      · rw [harmless_alias h hs hr hmem hp hrp]
        simp
  constructor
  · exact fun hall r t rest hr hlist ↦ (hclass r t rest hr hlist).1 (hall t rest hlist)
  · intro hall t rest hlist
    obtain ⟨hts, htd⟩ : t ∈ s ∧ (base t).digest = d := by
      have ht : t ∈ (indexOrder base s).filter fun x ↦ (base x).digest = d :=
        hlist ▸ List.mem_cons_self
      rw [List.mem_filter, mem_indexOrder] at ht
      simpa using ht
    obtain ⟨r, hr⟩ : ∃ r, firstOf base l d = some r := by
      rw [← Option.ne_none_iff_exists', ne_eq, firstOf_eq_none]
      exact fun hnone ↦ hnone t (hs t hts) htd
    exact (hclass r t rest hr hlist).2 (hall r t rest hr hlist)

/-- Images that list more tags are not as they were. -/
theorem Grown.disturbs {c' : RSPImageCollection} (h : Grown l c.images c')
    (hl : ∀ x ∈ l, x ∈ c.allImages false false) : ¬ c.Undisturbed c'.images := by
  obtain ⟨x, hx, name, hmem, hnew⟩ := h
  intro hsame
  rw [hsame.image x (hl x hx)] at hmem
  exact hnew hmem

section Sharing

variable [Ord Version] (order : SetOrder) (title : String → String)

/-- **A subset leaves the original as it is exactly if the images selected resettle, and a difference
always does.** -/
theorem subset_undisturbed_iff (images : List RSPImage) (hfresh : ∀ image ∈ images, FromTag image)
    (htags : (images.map fun image ↦ image.tag).Nodup) (cycle : Option ℕ) :
    ∃ c, init order title (Heap.ofList images) (List.range images.length) cycle = .ok c ∧
      (∀ releases weeklies dailies included removeArchSpecific,
        (∃ c', c.subset order title releases weeklies dailies included removeArchSpecific = .ok c' ∧
          c.Undisturbed c'.images) ↔
        c.Resettles (c.selected order releases weeklies dailies included removeArchSpecific)) ∧
      ∀ (other : RSPImageCollection) (digests : c.Digests), ∃ c',
        c.subtract order title other digests = .ok c' ∧ c.Undisturbed c'.images := by
  obtain ⟨base, hbase⟩ : ∃ base, base = Heap.ofList images := ⟨_, rfl⟩
  have hpool : Pool base := hbase ▸ pool_ofList hfresh htags
  have hsize : base.size = images.length := by simp [hbase]
  obtain ⟨c, hok, h, hinit⟩ := init_classified order title hpool (List.range images.length)
    (fun x hx ↦ hsize ▸ List.mem_range.1 hx) List.nodup_range cycle
  obtain ⟨m, hm⟩ : ∃ m, m = (List.range images.length).filter fun i ↦
    cycle = none ∨ (base i).cycle = cycle := ⟨_, rfl⟩
  rw [← hm] at h hinit
  have hindexed := RSPImageTagCollection.init_indexed hinit
  have hmlt : ∀ x ∈ m, x < base.size := fun x hx ↦ hsize ▸ List.mem_range.1
    (List.mem_of_mem_filter (hm ▸ hx))
  have hsettled : Settled title base (indexOrder base m) c := by
    refine ⟨h, hpool, fun x hx ↦ hmlt x (mem_indexOrder.1 hx),
      nodup_indexOrder (hm ▸ List.nodup_range.filter _), fun d r hr hrp x hx hxd ↦ ?_⟩
    by_contra hxp
    have htarget := (first_isTarget hr).2 ⟨x, mem_indexOrder.1 hx, hxd, by simpa using hxp⟩
    simp [hrp] at htarget
  have hlisted : ∀ x ∈ indexOrder base m, x ∈ c.allImages false false := by
    intro x hx
    rw [allImages, List.mem_filter, hindexed.mem_allTags]
    exact ⟨mem_indexOrder.1 hx, by simp⟩
  refine ⟨c, hbase ▸ hok, fun releases weeklies dailies included removeArchSpecific ↦ ?_,
    fun other digests ↦ ?_⟩
  · have hsub : ∀ x ∈ c.selected order releases weeklies dailies included removeArchSpecific,
        x ∈ indexOrder base m := fun x hx ↦ mem_indexOrder.2 (mem_of_mem_selected hindexed hx)
    obtain ⟨hsame, hgrown⟩ := init_outcome order hsettled hsub
    rw [subset_eq, ← chain_iff_resettles hsettled hsub]
    constructor
    · rintro ⟨c', hok', hundisturbed⟩
      by_contra hbad
      exact (hgrown hbad c' hok').disturbs hlisted hundisturbed
    · intro hgood
      obtain ⟨c', hok', himages⟩ := hsame hgood
      exact ⟨c', hok', himages ▸ c.undisturbed_self⟩
  · have hreached : Reached order title c := .init hok
    obtain ⟨c', hok', himages, -, -⟩ :=
      subtract_eq (b := { other with images := c.images }) order title hreached.covers rfl digests
    exact ⟨c', hok', himages ▸ c.undisturbed_self⟩

end Sharing

section Sample

local instance sharingPrecedence : Ord Version := semverPrecedence

/-- Two weekly images of the same digest, the older one first, and an alias of them. -/
def taggedImages : List RSPImage :=
  [("w_2077_45", "sha256:1"), ("w_2077_46", "sha256:1"), ("recommended", "sha256:1")].map
    fun image ↦ .fromTag (.fromStr image.1) "lighthouse.ceres" "library/sketchbook" image.2 none

theorem taggedImages_fromTag : ∀ image ∈ taggedImages, FromTag image := by
  intro image himage
  obtain ⟨tag, -, rfl⟩ := List.mem_map.1 himage
  exact ⟨_, _, _, _, _, rfl⟩

/-- The collection of these images. -/
def taggedCollection : RSPImageCollection :=
  (init insertionOrder id (Heap.ofList taggedImages) (List.range 3)).toOption.getD
    ⟨Heap.ofList taggedImages, fun _ ↦ none, fun _ ↦ [], .empty⟩

/-- A subset of the two weekly images resolves them as before. -/
theorem subset_undisturbed_sample : ∃ c c',
    init insertionOrder id (Heap.ofList taggedImages) (List.range 3) = .ok c ∧
      c.subset insertionOrder id 0 1 0 ∅ true = .ok c' ∧ c.Undisturbed c'.images := by
  obtain ⟨c, hok, hsubset, -⟩ := subset_undisturbed_iff insertionOrder id taggedImages
    taggedImages_fromTag (by decide +kernel) none
  have hc : taggedCollection = c := by
    rw [taggedCollection]
    show (init insertionOrder id (Heap.ofList taggedImages)
      (List.range taggedImages.length)).toOption.getD _ = c
    rw [hok]
    rfl
  obtain ⟨c', hok', hundisturbed⟩ := (hsubset 0 1 0 ∅ true).2 fun d r t rest _ hlist ↦ by
    have hselected : indexOrder c.images (c.selected insertionOrder 0 1 0 ∅ true) = [1] := by
      rw [← hc]
      decide +kernel
    have hone := congrArg List.length hlist
    rw [hselected] at hone
    have hle := List.length_filter_le (fun x ↦ decide ((c.images x).digest = d)) [1]
    obtain rfl : rest = [] := List.eq_nil_of_length_eq_zero (by
      simp only [List.length_cons, List.length_nil] at hone hle
      omega)
    exact ⟨by simp, Or.inr (Or.inr (by simp))⟩
  exact ⟨c, c', hok, hok', hundisturbed⟩

/-- **An alias that is resolved to another image** by taking a subset. -/
theorem subset_disturbs : ∃ c c',
    init insertionOrder id (Heap.ofList taggedImages) (List.range 3) = .ok c ∧
      c.subset insertionOrder id 0 1 0 {"recommended"} true = .ok c' ∧
      (c.images 2).aliasTarget = some "w_2077_45" ∧
      (c'.images 2).aliasTarget = some "w_2077_46" ∧ ¬ c.Undisturbed c'.images := by
  obtain ⟨c, hok, -⟩ := init_classified insertionOrder id
    (pool_ofList taggedImages_fromTag (by decide +kernel)) (List.range 3)
    (fun x hx ↦ List.mem_range.1 hx) List.nodup_range none
  have hc : taggedCollection = c := by rw [taggedCollection, hok]; rfl
  have hsubset : ((taggedCollection.subset insertionOrder id 0 1 0 {"recommended"} true).toOption.map
      fun c' ↦ (c'.images 2).aliasTarget) = some (some "w_2077_46") := by decide +kernel
  obtain ⟨c', hok', htarget'⟩ : ∃ c',
      taggedCollection.subset insertionOrder id 0 1 0 {"recommended"} true = .ok c' ∧
        (c'.images 2).aliasTarget = some "w_2077_46" := by
    rcases hresult : taggedCollection.subset insertionOrder id 0 1 0 {"recommended"} true with _ | c'
    · rw [hresult] at hsubset
      cases hsubset
    · rw [hresult] at hsubset
      exact ⟨c', rfl, Option.some.inj hsubset⟩
  have htarget : (c.images 2).aliasTarget = some "w_2077_45" := by
    rw [← hc]
    decide +kernel
  have hmem : 2 ∈ c.allImages false false := by
    rw [← hc]
    decide +kernel
  refine ⟨c, c', hok, hc ▸ hok', htarget, htarget', fun hundisturbed ↦ ?_⟩
  have hsame := congrArg RSPImage.aliasTarget (hundisturbed.image 2 hmem)
  rw [htarget', htarget] at hsame
  revert hsame
  decide

end Sample

end RSPImageCollection

end Nublado.Images
