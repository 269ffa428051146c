import Mathlib.Data.List.Perm.Basic
import Nublado.Images.Properties.TagOrdering
import Nublado.Images.TagCollection

/-!
# A filter and its inversion

`RSPImageTagCollection.filter` yields the tags that a policy accepts, and with `invert` those that it
does not. The two are computed differently: the inverted filter runs the filter to its end and leaves
out the tags of the names that it has seen, and a type without a filter is not looked at at all.
`filter_splits_iff` says that they nevertheless split the tags of a collection between them, provided
that all the dates that the policy computes exist.

* Where such a date is out of range both raise an error, before anything of that type is yielded.
* The two agree only about the same tags. The menus hide the tags of one architecture and so do not
  count them, while pruning counts them: `filter_does_not_split` has an image that is in the menu and
  that pruning would remove.
-/

namespace Nublado.Images

namespace RSPImageTagCollection

section Splitting

variable {T : Type}

/-- **Two lists split a list**: both keep its order, and every element is in exactly one of them, once. -/
structure Splits (all kept removed : List T) : Prop where
  kept_sublist : kept.Sublist all
  removed_sublist : removed.Sublist all
  perm : (kept ++ removed).Perm all
  nodup : all.Nodup

/-- Leaving out by name what a sublist has is leaving out the sublist, if names are distinct. -/
theorem splits_of_sublist {view : T → RSPImageTag} {all kept : List T} (hkept : kept.Sublist all)
    (hnames : (all.map fun tag ↦ (view tag).tag).Nodup) :
    Splits all kept
      (all.filter fun tag ↦ (view tag).tag ∉ kept.map fun tag ↦ (view tag).tag) := by
  have hall : all.Nodup := hnames.of_map
  have hremoved : (all.filter fun tag ↦ (view tag).tag ∉ kept.map fun tag ↦ (view tag).tag).Sublist
      all := List.filter_sublist
  refine ⟨hkept, hremoved, ?_, hall⟩
  have hboth : (kept ++ all.filter fun tag ↦
      (view tag).tag ∉ kept.map fun tag ↦ (view tag).tag).Nodup := by
    refine (hkept.nodup hall).append (hremoved.nodup hall) fun tag htag htag' ↦ ?_
    have hnot := of_decide_eq_true (List.mem_filter.1 htag').2
    exact hnot (List.mem_map_of_mem htag)
  refine (List.perm_ext_iff_of_nodup hboth hall).2 fun tag ↦ ?_
  rw [List.mem_append]
  constructor
  · rintro (htag | htag)
    · exact hkept.subset htag
    · exact List.mem_of_mem_filter htag
  · intro htag
    by_cases hname : (view tag).tag ∈ kept.map fun tag ↦ (view tag).tag
    · obtain ⟨tag', htag', heq⟩ := List.mem_map.1 hname
      obtain rfl := List.inj_on_of_nodup_map hnames (hkept.subset htag') htag heq
      exact Or.inl htag'
    · exact Or.inr (List.mem_filter.2 ⟨htag, decide_eq_true hname⟩)

/-- Sublists one by one are a sublist as a whole. -/
theorem sublist_flatMap {ι : Type} {l : List ι} {some all : ι → List T}
    (h : ∀ i ∈ l, (some i).Sublist (all i)) : (l.flatMap some).Sublist (l.flatMap all) := by
  induction l with
  | nil => exact List.Sublist.refl _
  | cons i l ih =>
    rw [List.flatMap_cons, List.flatMap_cons]
    exact (h i List.mem_cons_self).append (ih fun j hj ↦ h j (List.mem_cons_of_mem _ hj))

/-- Lists that are split one by one are split as a whole. -/
theorem splits_flatMap {ι : Type} {all kept removed : ι → List T} {l : List ι}
    (h : ∀ i ∈ l, Splits (all i) (kept i) (removed i)) (hnodup : (l.flatMap all).Nodup) :
    Splits (l.flatMap all) (l.flatMap kept) (l.flatMap removed) := by
  refine ⟨sublist_flatMap fun i hi ↦ (h i hi).kept_sublist,
    sublist_flatMap fun i hi ↦ (h i hi).removed_sublist, ?_, hnodup⟩
  exact (List.flatMap_append_perm l kept removed).trans
    (List.Perm.flatMap_left l fun i hi ↦ (h i hi).perm)

/-- The tags of a list that are looked at. -/
def candidates (view : T → RSPImageTag) (tags : List T) (removeArchSpecific : Bool) : List T :=
  tags.filter fun tag ↦ !(removeArchSpecific && (view tag).isArchSpecific)

variable [Ord Version]

/-- The tags of a list that a filter accepts. -/
def accepted (view : T → RSPImageTag) (tags : List T) (policy : Option ImageFilter)
    (ageBasis : Datetime) (removeArchSpecific : Bool) : List T :=
  policy.elim (candidates view tags removeArchSpecific) fun f ↦
    takeAccepted (fun tag ↦ rejects f ((filterDate f ageBasis).getD none) (view tag)) f.number 0
      (candidates view tags removeArchSpecific)

/-- **What a filter and its inversion yield** of the tags of one type. -/
theorem filterImageList_eq (view : T → RSPImageTag) (tags : List T) (policy : Option ImageFilter)
    (ageBasis : Datetime) (invert removeArchSpecific : Bool) :
    filterImageList view tags policy ageBasis invert removeArchSpecific =
      if InRange policy ageBasis then
        some (if invert then (candidates view tags removeArchSpecific).filter fun tag ↦
            (view tag).tag ∉ (accepted view tags policy ageBasis removeArchSpecific).map
              fun tag ↦ (view tag).tag
          else accepted view tags policy ageBasis removeArchSpecific)
      else none := by
  rcases policy with _ | f
  · rw [if_pos (by simp [InRange])]
    cases invert with
    | false => rfl
    | true =>
      have hnone : (candidates view tags removeArchSpecific).filter (fun tag ↦ (view tag).tag ∉
          (accepted view tags none ageBasis removeArchSpecific).map fun tag ↦ (view tag).tag) =
          [] := by
        rw [List.filter_eq_nil_iff]
        intro tag htag
        simpa using ⟨tag, htag, rfl⟩
      rw [if_pos rfl, hnone]
      rfl
  · rcases hdate : filterDate f ageBasis with _ | date
    · rw [if_neg (by simp [InRange, hdate])]
      simp [filterImageList, hdate]
    · rw [if_pos (by simp [InRange, hdate])]
      cases invert <;> simp [filterImageList, accepted, candidates, hdate]

theorem accepted_sublist (view : T → RSPImageTag) (tags : List T) (policy : Option ImageFilter)
    (ageBasis : Datetime) (removeArchSpecific : Bool) :
    (accepted view tags policy ageBasis removeArchSpecific).Sublist
      (candidates view tags removeArchSpecific) := by
  rcases policy with _ | f
  · exact List.Sublist.refl _
  · rw [accepted, Option.elim_some, takeAccepted_eq]
    exact (newest_sublist _ _).trans List.filter_sublist

/-- **What a filter and its inversion yield** of a collection. -/
theorem filter_eq (view : T → RSPImageTag) (c : RSPImageTagCollection T) (policy : ImageFilterPolicy)
    (ageBasis : Datetime) (invert removeArchSpecific : Bool) :
    c.filter view policy ageBasis invert removeArchSpecific =
      if ∀ t ∈ RSPImageType.all, InRange (policy.forImageType t) ageBasis then
        some <| RSPImageType.all.flatMap fun t ↦ if invert then
            (candidates view (c.byType t) removeArchSpecific).filter fun tag ↦ (view tag).tag ∉
              (accepted view (c.byType t) (policy.forImageType t) ageBasis removeArchSpecific).map
                fun tag ↦ (view tag).tag
          else accepted view (c.byType t) (policy.forImageType t) ageBasis removeArchSpecific
      else none := by
  rw [filter, mapM_eq_ite fun t ↦ filterImageList_eq view (c.byType t) (policy.forImageType t)
    ageBasis invert removeArchSpecific]
  split
  · rw [Option.map_some, List.flatMap_def]
  · rfl

/-- **A filter and its inversion split the tags of a collection** exactly when all the dates that the
policy computes exist; where one does not, neither yields a result. -/
theorem filter_splits_iff {view : T → RSPImageTag} {c : RSPImageTagCollection T}
    (hnames : ((c.allTags view false).map fun tag ↦ (view tag).tag).Nodup)
    (policy : ImageFilterPolicy) (ageBasis : Datetime) (removeArchSpecific : Bool) :
    (∃ kept removed, c.filter view policy ageBasis false removeArchSpecific = some kept ∧
      c.filter view policy ageBasis true removeArchSpecific = some removed ∧
      Splits (c.allTags view removeArchSpecific) kept removed) ↔
      ∀ t, InRange (policy.forImageType t) ageBasis := by
  have hmem : (∀ t, InRange (policy.forImageType t) ageBasis) ↔
      ∀ t ∈ RSPImageType.all, InRange (policy.forImageType t) ageBasis :=
    ⟨fun h t _ ↦ h t, fun h t ↦ h t (RSPImageType.mem_all t)⟩
  have hfilter : ∀ invert, ∃ yielded : RSPImageType → List T,
      (c.filter view policy ageBasis invert removeArchSpecific =
        if ∀ t ∈ RSPImageType.all, InRange (policy.forImageType t) ageBasis then
          some (RSPImageType.all.flatMap yielded)
        else none) ∧ ∀ t, yielded t = if invert then
          (candidates view (c.byType t) removeArchSpecific).filter fun tag ↦ (view tag).tag ∉
            (accepted view (c.byType t) (policy.forImageType t) ageBasis removeArchSpecific).map
              fun tag ↦ (view tag).tag
        else accepted view (c.byType t) (policy.forImageType t) ageBasis removeArchSpecific := by
    intro invert
    exact ⟨_, filter_eq view c policy ageBasis invert removeArchSpecific, fun t ↦ rfl⟩
  obtain ⟨kept, hkept, hkept_eq⟩ := hfilter false
  obtain ⟨removed, hremoved, hremoved_eq⟩ := hfilter true
  rw [hmem, hkept, hremoved]
  constructor
  · rintro ⟨_, _, hsome, -, -⟩
    by_contra hnot
    rw [if_neg hnot] at hsome
    cases hsome
  · intro hrange
    refine ⟨_, _, if_pos hrange, if_pos hrange, ?_⟩
    -- hiding some tags leaves the names distinct
    have hall : (c.allTags view removeArchSpecific).Sublist (c.allTags view false) := by
      refine sublist_flatMap fun t _ ↦ ?_
      simp only [Bool.false_and, Bool.not_false, List.filter_true]
      exact List.filter_sublist
    have hnames' : ((c.allTags view removeArchSpecific).map fun tag ↦ (view tag).tag).Nodup :=
      (hall.map _).nodup hnames
    refine splits_flatMap (fun t ht ↦ ?_) hnames'.of_map
    have hone : ((candidates view (c.byType t) removeArchSpecific).map fun tag ↦
        (view tag).tag).Nodup := by
      rw [allTags, List.map_flatMap, List.nodup_flatMap] at hnames'
      exact hnames'.1 t ht
    rw [hkept_eq, hremoved_eq]
    exact splits_of_sublist (accepted_sublist _ _ _ _ _) hone

end Splitting

section Sample

local instance : Ord Version := semverPrecedence

/-- The collection of the tags with these names. -/
def ofNames (names : List String) : RSPImageTagCollection RSPImageTag :=
  (init id (names.map RSPImageTag.fromStr)).getD empty

/-- Weekly images of the last thousand years. -/
def millennium : ImageFilterPolicy := { weekly := { age := some (365250 * 86400000000) } }

/-- The newest weekly image. -/
def newestWeekly : ImageFilterPolicy := { weekly := { number := some 1 } }

/-- Two weekly images; the newer is kept. -/
theorem filter_splits_sample :
    ∃ kept removed,
      (ofNames ["w_2021_21", "w_2021_22"]).filter id newestWeekly 0 false true = some kept ∧
        (ofNames ["w_2021_21", "w_2021_22"]).filter id newestWeekly 0 true true = some removed ∧
        Splits ((ofNames ["w_2021_21", "w_2021_22"]).allTags id true) kept removed :=
  (filter_splits_iff (by decide +kernel) newestWeekly 0 true).2 fun t ↦ by
    cases t <;> decide +kernel

/-- **An age before the first date, and an image for one architecture**: a filter for a thousand years
fails in year three, and with one image to keep, pruning counts the newest image, which is for one
architecture, and reports the image that the menu shows. -/
theorem filter_does_not_split :
    (¬ ∃ kept removed,
      (ofNames ["w_2021_21"]).filter id millennium (732 * 86400000000) false true = some kept ∧
        (ofNames ["w_2021_21"]).filter id millennium (732 * 86400000000) true true = some removed ∧
        Splits ((ofNames ["w_2021_21"]).allTags id true) kept removed) ∧
    ∃ menu reported,
      (ofNames ["w_2021_21", "w_2021_22-amd64"]).filter id newestWeekly 0 false true = some menu ∧
        (ofNames ["w_2021_21", "w_2021_22-amd64"]).filter id newestWeekly 0 true false =
          some reported ∧
        ∃ tag ∈ menu, tag ∈ reported := by
  constructor
  · rintro ⟨kept, removed, hkept, -, -⟩
    have hnone : ((ofNames ["w_2021_21"]).filter id millennium (732 * 86400000000) false true).isNone =
        true := by decide +kernel
    rw [hkept] at hnone
    cases hnone
  · refine ⟨[RSPImageTag.fromStr "w_2021_21"], [RSPImageTag.fromStr "w_2021_21"], ?_, ?_, _,
      List.mem_singleton_self _, List.mem_singleton_self _⟩
    · decide +kernel
    · decide +kernel

end Sample

end RSPImageTagCollection

end Nublado.Images
