import Mathlib.Data.Finset.Sort
import Mathlib.Data.String.Basic
import Nublado.Images.Indexing
import Nublado.Images.Properties.TagOrdering

/-!
# Alias tracking

A collection is built from some images and further images are added to it one at a time. Wherever a
digest has an image that is not an alias, that image should be found under the digest, and every
possible alias of the digest should be resolved to it (`AliasesTracked`).

* `alias_tracking_iff`: for freshly built images with distinct tags and no architecture, no method
  raises, and aliases are tracked at the end exactly if no digest ends `stale` in the abstract account
  of the index. A digest becomes stale when its first image is a possible alias that was added singly
  and its second image is a target; it stays stale until a later addition reindexes the collection.
* `alias_not_tracked` is the shortest run of that kind: an alias is added to an empty collection, and
  then the image it is an alias of.
-/

namespace Nublado.Images

namespace RSPImageCollection

variable {base : Heap RSPImage} {c : RSPImageCollection} {m : List ℕ} {s : Standings}

/-- For every digest that some image other than an alias has, such an image is found under the digest,
and every possible alias of the digest has type alias, points to that image, and is listed there. -/
def AliasesTracked (c : RSPImageCollection) : Prop :=
  ∀ d, (∃ x ∈ c.allImages false false, (c.images x).digest = d ∧
      (c.images x).isPossibleAlias = false) →
    ∃ i, c.imageForDigest d = some i ∧ (c.images i).isPossibleAlias = false ∧
      ∀ x ∈ c.allImages false false, (c.images x).digest = d → (c.images x).isPossibleAlias = true →
        (c.images x).imageType = .alias ∧ (c.images x).aliasTarget = some (c.images i).tag ∧
        (c.images x).tag ∈ (c.images i).aliases

/-- The abstract account of a collection says whether its aliases are tracked. -/
theorem Tracks.aliasesTracked_iff (h : Tracks base m c s) :
    AliasesTracked c ↔ ∀ d, s d ≠ .stale := by
  have hc := h.consistent
  have hmem : ∀ x, x ∈ c.allImages false false ↔ x ∈ m := by
    intro x
    rw [← h.indexed.mem_allTags]
    simp [allImages]
  simp only [AliasesTracked, hmem, hc.digest, hc.possible, hc.tag]
  constructor
  · intro htracked d hstale
    have hs := h.stands d
    rw [hstale] at hs
    obtain ⟨i, hi, -, -, hd, hpossible, x, hx, hxd, hxpossible, hnone⟩ := hs
    obtain ⟨k, -, -, hall⟩ := htracked d ⟨i, hi, hd, hpossible⟩
    obtain ⟨-, htarget, -⟩ := hall x hx hxd hxpossible
    rw [hnone] at htarget
    cases htarget
  · intro hnever d hpresent
    have hs := h.stands d
    have htarget := hs.target_iff.2 hpresent
    cases hstanding : s d with
    | absent | lone | pending =>
      rw [hstanding] at htarget
      cases htarget
    | stale => exact absurd hstanding (hnever d)
    | resolved =>
      rw [hstanding] at hs
      obtain ⟨i, -, hby, -, -, hpossible, hall⟩ := hs
      refine ⟨i, hby, hpossible, fun x hx hxd hxpossible ↦ ?_⟩
      obtain ⟨hstatus, hlisted⟩ := hall x hx hxd hxpossible
      exact ⟨congrArg Prod.fst hstatus, congrArg Prod.snd hstatus, hlisted⟩

section Runs

variable [Ord Version] (order : SetOrder) (title : String → String)

/-- Build a collection from `images` and add the images `added` to it one at a time. -/
def collect (images added : List RSPImage) (cycle : Option ℕ := none) :
    Except ImageError RSPImageCollection := do
  let heap := Heap.ofList (images ++ added)
  let c ← init order title heap (List.range images.length) cycle
  (List.range' images.length added.length).foldlM (fun c i ↦ add order title i c) c

/-- The abstract account of such a run. -/
def standings (images added : List RSPImage) (cycle : Option ℕ := none) : Standings :=
  added.foldl Standings.add
    (Standings.ofImages (images.filter fun image ↦ cycle = none ∨ image.cycle = cycle))

/-- **The run lemma**: adding images one after the other follows the abstract account. -/
theorem foldlM_add_tracks (hpool : Pool base) (hbase : ∀ i, (base i).architecture = none)
    (refs : List ℕ) : ∀ {m : List ℕ} {c : RSPImageCollection} {s : Standings}, Tracks base m c s →
    refs.Nodup → (∀ i ∈ refs, i < base.size ∧ i ∉ m) →
    ∃ c' m', refs.foldlM (fun c i ↦ add order title i c) c = .ok c' ∧
      Tracks base m' c' (refs.foldl (fun s i ↦ s.add (base i)) s) := by
  induction refs with
  | nil =>
    intro m c s h _ _
    exact ⟨c, m, rfl, h⟩
  | cons i refs ih =>
    intro m c s h hnodup hrefs
    obtain ⟨hi, hnew⟩ := hrefs i List.mem_cons_self
    obtain ⟨hnotin, hnodup⟩ := List.nodup_cons.1 hnodup
    obtain ⟨c₁, m₁, hadd, hm₁, h₁⟩ := add_tracks order title hpool hbase h hi hnew
    obtain ⟨c', m', hfold, h'⟩ := ih h₁ hnodup fun j hj ↦ by
      obtain ⟨hjlt, hjm⟩ := hrefs j (List.mem_cons_of_mem _ hj)
      refine ⟨hjlt, fun hjm₁ ↦ ?_⟩
      rcases (hm₁ j).1 hjm₁ with hj' | rfl
      · exact hjm hj'
      · exact hnotin hj
    refine ⟨c', m', ?_, h'⟩
    rw [List.foldlM_cons, hadd]
    exact hfold

/-- **The run of a collection follows the abstract account.** -/
theorem collect_tracks (images added : List RSPImage) (cycle : Option ℕ)
    (hfresh : ∀ image ∈ images ++ added, FromTag image)
    (hbase : ∀ image ∈ images ++ added, image.architecture = none)
    (htags : ((images ++ added).map fun image ↦ image.tag).Nodup) :
    ∃ c m, collect order title images added cycle = .ok c ∧
      Tracks (Heap.ofList (images ++ added)) m c (standings images added cycle) := by
  obtain ⟨heap, hheap⟩ : ∃ heap : Heap RSPImage, heap = Heap.ofList (images ++ added) := ⟨_, rfl⟩
  have hsize : heap.size = images.length + added.length := by simp [hheap]
  have hpool : Pool heap := hheap ▸ pool_ofList hfresh htags
  have hnone : ∀ i, (heap i).architecture = none := by
    intro i
    rw [hheap]
    rcases ofList_mem_or_default (images ++ added) i with hmem | hdefault
    · exact hbase _ hmem
    · rw [hdefault]
      rfl
  -- The references of the images given to the constructor, and of those added.
  have hinitial : (List.range images.length).map heap = images := by
    rw [hheap]
    refine List.ext_getElem (by simp) fun i hi hi' ↦ ?_
    have hlt : i < (images ++ added).length := by
      rw [List.length_append]
      omega
    simp [Heap.ofList_of_lt hlt, List.getElem_append_left hi']
  have hadded : (List.range' images.length added.length).map heap = added := by
    rw [hheap]
    exact Heap.map_ofList_append images added
  obtain ⟨c, hinit, htracks, -⟩ := init_spec order title hpool (List.range images.length)
    (fun x hx ↦ by
      have := List.mem_range.1 hx
      omega)
    List.nodup_range cycle
  obtain ⟨c', m', hfold, htracks'⟩ := foldlM_add_tracks order title hpool hnone
    (List.range' images.length added.length) htracks List.nodup_range' fun i hi ↦ by
      obtain ⟨hge, hlt⟩ := List.mem_range'_1.1 hi
      refine ⟨by omega, fun hmem ↦ ?_⟩
      have := List.mem_range.1 (List.mem_of_mem_filter hmem)
      omega
  refine ⟨c', m', ?_, ?_⟩
  · rw [collect, ← hheap, hinit]
    exact hfold
  · have hkept : ((List.range images.length).filter fun i ↦
        cycle = none ∨ (heap i).cycle = cycle).map heap =
        images.filter fun image ↦ cycle = none ∨ image.cycle = cycle := by
      conv_rhs => rw [← hinitial, List.filter_map]
      rfl
    have hfinal : ∀ z : Standings, (List.range' images.length added.length).foldl
        (fun s i ↦ s.add (heap i)) z = added.foldl Standings.add z := by
      intro z
      conv_rhs => rw [← hadded, List.foldl_map]
    rw [hfinal] at htracks'
    rw [← hheap, standings, ← hkept]
    exact htracks'

/-- **Aliases are tracked exactly if no digest ends stale.** -/
theorem alias_tracking_iff (images added : List RSPImage) (cycle : Option ℕ)
    (hfresh : ∀ image ∈ images ++ added, FromTag image)
    (hbase : ∀ image ∈ images ++ added, image.architecture = none)
    (htags : ((images ++ added).map fun image ↦ image.tag).Nodup) :
    ∃ c, collect order title images added cycle = .ok c ∧
      (AliasesTracked c ↔ ∀ d, standings images added cycle d ≠ .stale) := by
  obtain ⟨c, m, hok, htracks⟩ := collect_tracks order title images added cycle hfresh hbase htags
  exact ⟨c, hok, htracks.aliasesTracked_iff⟩

end Runs

section Sample

local instance : Ord Version := semverPrecedence

/-- Images of one digest. -/
def sampleImage (tag : String) : RSPImage :=
  .fromTag (.fromStr tag) "lighthouse.ceres" "library/sketchbook" "sha256:1" none

theorem sampleImage_fromTag (tags : List String) :
    ∀ image ∈ tags.map sampleImage, FromTag image := by
  intro image himage
  obtain ⟨tag, -, rfl⟩ := List.mem_map.1 himage
  exact ⟨_, _, _, _, _, rfl⟩

/-- Visit the members of a set in alphabetical order. -/
def alphabetical : SetOrder where
  toList s := s.sort (· ≤ ·)
  mem_toList _ _ := Finset.mem_sort _
  nodup_toList s := Finset.sort_nodup s _

/-- No other digest than the one of the images is ever stale. -/
theorem standings_of_ne (tags tags' : List String) {d : String} (hd : d ≠ "sha256:1") :
    standings (tags.map sampleImage) (tags'.map sampleImage) none d = .absent := by
  have hdigest : ∀ tag, (sampleImage tag).digest ≠ d := fun tag ↦ hd.symm
  have hinitial : Standings.ofImages ((tags.map sampleImage).filter fun image ↦
      (none : Option ℕ) = none ∨ image.cycle = none) d = .absent := by
    simp [Standings.ofImages, hdigest, Standing.index]
  rw [standings]
  generalize Standings.ofImages _ = s at hinitial
  induction tags' generalizing s with
  | nil => exact hinitial
  | cons tag tags' ih => exact ih _ (Standings.add_absent hinitial (hdigest tag))

/-- An alias given to the constructor is resolved when its target is added, and handed over when
another target follows. -/
theorem alias_tracking_iff_sample :
    ∃ c, collect alphabetical id [sampleImage "recommended"]
      [sampleImage "w_2077_46", sampleImage "w_2077_47"] = .ok c ∧ AliasesTracked c := by
  obtain ⟨c, hok, htracked⟩ := alias_tracking_iff alphabetical id [sampleImage "recommended"]
    [sampleImage "w_2077_46", sampleImage "w_2077_47"] none
    (sampleImage_fromTag ["recommended", "w_2077_46", "w_2077_47"]) (by decide +kernel)
    (by decide +kernel)
  refine ⟨c, hok, htracked.2 fun d ↦ ?_⟩
  rcases eq_or_ne d "sha256:1" with rfl | hd
  · decide +kernel
  · have := standings_of_ne ["recommended"] ["w_2077_46", "w_2077_47"] hd
    simp only [List.map_cons, List.map_nil] at this
    simp [this]

/-- **An alias that is not resolved**: it is added to an empty collection, and its target after it. -/
theorem alias_not_tracked :
    ∃ c, collect alphabetical id [] [sampleImage "recommended", sampleImage "w_2077_46"] = .ok c ∧
      ¬ AliasesTracked c := by
  obtain ⟨c, m, hok, htracks⟩ := collect_tracks alphabetical id []
    [sampleImage "recommended", sampleImage "w_2077_46"] none
    (sampleImage_fromTag ["recommended", "w_2077_46"]) (by decide +kernel) (by decide +kernel)
  refine ⟨c, hok, fun htracked ↦ htracks.aliasesTracked_iff.1 htracked "sha256:1" ?_⟩
  decide +kernel

end Sample

end RSPImageCollection

end Nublado.Images
