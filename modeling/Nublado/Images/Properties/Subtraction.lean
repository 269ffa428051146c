import Nublado.Images.Coverage
import Nublado.Images.Properties.TagOrdering

/-!
# Subtraction

One collection minus another should hold one image for each digest that is missing from the other, the
one that is found under the digest (`IsDifference`).

* `subtract_iff`: it does exactly if every digest that both have belongs to an image of the other that
  is not for a specific architecture. The images of the other are visited as they are shown by default,
  which hides those for a specific architecture.
* `subtract_keeps_digest` is the smallest failure: the other collection has the digest, but only with an
  image for one architecture, and the digest is reported as missing.
-/

namespace Nublado.Images

namespace RSPImageCollection

variable {a b c : RSPImageCollection} {x : ℕ} {d : String}

/-- Some image of the collection has the digest. -/
def HasDigest (c : RSPImageCollection) (d : String) : Prop :=
  ∃ x ∈ c.allImages false false, (c.images x).digest = d

/-- Some image that is shown by default has the digest. -/
def ShowsDigest (c : RSPImageCollection) (d : String) : Prop :=
  ∃ x ∈ c.allImages, (c.images x).digest = d

/-- **The collection `c` is the difference of `a` and `b`**: it has one image for each digest that `a`
has and `b` has not, the one that is found under the digest in `a`. -/
structure IsDifference (a b c : RSPImageCollection) : Prop where
  nodup : ((c.allImages false false).map fun x ↦ (c.images x).digest).Nodup
  mem : ∀ x, x ∈ c.allImages false false ↔
    ∃ d, a.HasDigest d ∧ ¬ b.HasDigest d ∧ a.imageForDigest d = some x
  found : ∀ d, a.HasDigest d → (a.imageForDigest d).isSome

/-- What is shown is there. -/
theorem ShowsDigest.hasDigest (h : c.ShowsDigest d) : c.HasDigest d := by
  obtain ⟨x, hx, hd⟩ := h
  refine ⟨x, ?_, hd⟩
  obtain ⟨t, ht⟩ := List.mem_flatMap.1 (List.mem_of_mem_filter hx)
  exact mem_allImages_iff.2 ⟨t, List.mem_of_mem_filter ht.2⟩

section Subtracting

variable (order : SetOrder) (title : String → String) [Ord Version]

/-- **What subtracting does**: it changes no image, and the result has one image for each digest in the
index that the other collection does not show. -/
theorem subtract_eq (h : Covers a) (himages : b.images = a.images) (digests : a.Digests) :
    ∃ c, a.subtract order title b digests = .ok c ∧ c.images = a.images ∧
      ((c.allImages false false).map fun x ↦ (a.images x).digest).Nodup ∧
      ∀ x, x ∈ c.allImages false false ↔ ∃ d, a.byDigest d = some x ∧ ¬ b.ShowsDigest d := by
  have hshared : ({ b with images := a.images } : RSPImageCollection) = b := by rw [← himages]
  obtain ⟨missing, hmissing⟩ : ∃ missing, missing = digests.toList.filter
      (· ∉ b.allImages.map fun i ↦ (a.images i).digest) := ⟨_, rfl⟩
  have hmem : ∀ d, d ∈ missing ↔ (a.byDigest d).isSome ∧ ¬ b.ShowsDigest d := by
    intro d
    rw [hmissing, List.mem_filter, digests.mem_toList]
    simp [ShowsDigest, himages]
  have hnodup : missing.Nodup := hmissing ▸ digests.nodup_toList.filter _
  -- The images that are found have the digests under which they are found.
  have hdigests : (missing.filterMap a.byDigest).map (fun x ↦ (a.images x).digest) = missing := by
    have hfound : ∀ d ∈ missing, (a.byDigest d).map (fun x ↦ (a.images x).digest) = some d := by
      intro d hd
      obtain ⟨x, hx⟩ := Option.isSome_iff_exists.1 ((hmem d).1 hd).1
      rw [hx, Option.map_some, (h.filed d x hx).2]
    rw [List.map_filterMap]
    exact (List.filterMap_congr hfound).trans List.filterMap_some
  have hlist : ∀ x, x ∈ missing.filterMap a.byDigest ↔
      ∃ d, a.byDigest d = some x ∧ ¬ b.ShowsDigest d := by
    intro x
    simp only [List.mem_filterMap, hmem]
    constructor
    · rintro ⟨d, ⟨-, hd⟩, hx⟩
      exact ⟨d, hx, hd⟩
    · rintro ⟨d, hx, hd⟩
      exact ⟨d, ⟨by simp [hx], hd⟩, hx⟩
  have hall : missing.filterMap a.byDigest = (missing.filterMap a.byDigest).filter
      fun i ↦ (none : Option ℕ) = none ∨ (a.images i).cycle = none := by simp
  have hdistinct : ((missing.filterMap a.byDigest).map fun x ↦ (a.images x).digest).Nodup := by
    rw [hdigests]
    exact hnodup
  obtain ⟨c, hok, hc, hperm⟩ := init_of_distinct order title hall (List.pairwise_map.1 hdistinct)
  refine ⟨c, ?_, hc, ?_, fun x ↦ hperm.mem_iff.trans (hlist x)⟩
  · rw [subtract, hshared, ← hmissing]
    exact hok
  · exact (hperm.map _).nodup_iff.2 hdistinct

/-- **Subtraction is the difference exactly if nothing is hidden that matters**: if every digest that
both collections have is shown by the other one. -/
theorem subtract_iff (ha : Reached order title a) (himages : b.images = a.images)
    (digests : a.Digests) :
    (∃ c, a.subtract order title b digests = .ok c ∧ IsDifference a b c) ↔
      ∀ d, a.HasDigest d → b.HasDigest d → b.ShowsDigest d := by
  have hcovers := ha.covers
  obtain ⟨c, hok, hc, hnodup, hmem⟩ := subtract_eq order title hcovers himages digests
  have hhas : ∀ d, a.HasDigest d ↔ ∃ x, a.byDigest d = some x := by
    intro d
    constructor
    · rintro ⟨x, hx, rfl⟩
      exact Option.isSome_iff_exists.1 (hcovers.covered x hx)
    · rintro ⟨x, hx⟩
      exact ⟨x, hcovers.filed d x hx⟩
  constructor
  · rintro ⟨c', hok', hdifference⟩ d hda hdb
    obtain rfl := Except.ok.inj (hok.symm.trans hok')
    obtain ⟨x, hx⟩ := (hhas d).1 hda
    by_contra hshown
    obtain ⟨e, -, hbe, hxe⟩ := (hdifference.mem x).1 ((hmem x).2 ⟨d, hx, hshown⟩)
    have hde : d = e := (hcovers.filed d x hx).2.symm.trans (hcovers.filed e x hxe).2
    exact hbe (hde ▸ hdb)
  · intro hshown
    refine ⟨c, hok, by rwa [hc], fun x ↦ ?_, fun d hd ↦ Option.isSome_iff_exists.2 ((hhas d).1 hd)⟩
    rw [hmem]
    refine exists_congr fun d ↦ ⟨fun h ↦ ?_, fun h ↦ ?_⟩
    · have hda : a.HasDigest d := (hhas d).2 ⟨x, h.1⟩
      exact ⟨hda, fun hdb ↦ h.2 (hshown d hda hdb), h.1⟩
    · exact ⟨h.2.2, fun hdb ↦ h.2.1 hdb.hasDigest⟩

end Subtracting

section Sample

local instance subtractionPrecedence : Ord Version := semverPrecedence

/-- Two weekly images, and one of them under a tag for one architecture. -/
def pulledImages : List RSPImage :=
  [("w_2077_46", "sha256:1"), ("w_2077_45", "sha256:2"), ("w_2077_46-amd64", "sha256:1")].map
    fun image ↦ .fromTag (.fromStr image.1) "lighthouse.ceres" "library/sketchbook" image.2 none

/-- The collection of those at these references. -/
def pulledCollection (images : List ℕ) : RSPImageCollection :=
  (init insertionOrder id (Heap.ofList pulledImages) images).toOption.getD
    ⟨Heap.ofList pulledImages, fun _ ↦ none, fun _ ↦ [], .empty⟩

/-- Images of distinct digests make a collection, and are not changed by that. -/
theorem pulledCollection_spec (images : List ℕ)
    (h : (images.map fun x ↦ (Heap.ofList pulledImages x).digest).Nodup) :
    Reached insertionOrder id (pulledCollection images) ∧
      (pulledCollection images).images = Heap.ofList pulledImages := by
  obtain ⟨c, hok, hc, -⟩ := init_of_distinct insertionOrder id
    (by simp : images = images.filter fun i ↦ (none : Option ℕ) = none ∨
      (Heap.ofList pulledImages i).cycle = none) (List.pairwise_map.1 h)
  have heq : pulledCollection images = c := by
    rw [pulledCollection, hok]
    rfl
  rw [heq]
  exact ⟨.init hok, hc⟩

/-- The images of two digests, without those of the second one. -/
theorem subtract_iff_sample : ∃ digests : (pulledCollection [0, 1]).Digests, ∃ c,
    (pulledCollection [0, 1]).subtract insertionOrder id (pulledCollection [1]) digests = .ok c ∧
      IsDifference (pulledCollection [0, 1]) (pulledCollection [1]) c := by
  obtain ⟨ha, hheap⟩ := pulledCollection_spec [0, 1] (by decide +kernel)
  obtain ⟨-, hheap'⟩ := pulledCollection_spec [1] (by decide +kernel)
  refine ⟨ha.covers.digests, ?_⟩
  refine (subtract_iff insertionOrder id ha (hheap'.trans hheap.symm) _).2 fun d _ hd ↦ ?_
  obtain ⟨x, hx, hxd⟩ := hd
  have hall : (pulledCollection [1]).allImages false false = (pulledCollection [1]).allImages := by
    decide +kernel
  exact ⟨x, hall ▸ hx, hxd⟩

/-- **A digest that is not subtracted**: the other collection has it, for one architecture only. -/
theorem subtract_keeps_digest : ∃ digests : (pulledCollection [0]).Digests, ¬ ∃ c,
    (pulledCollection [0]).subtract insertionOrder id (pulledCollection [2]) digests = .ok c ∧
      IsDifference (pulledCollection [0]) (pulledCollection [2]) c := by
  obtain ⟨ha, hheap⟩ := pulledCollection_spec [0] (by decide +kernel)
  obtain ⟨-, hheap'⟩ := pulledCollection_spec [2] (by decide +kernel)
  refine ⟨ha.covers.digests, ?_⟩
  obtain ⟨c, hok, -, -, hmem⟩ :=
    subtract_eq insertionOrder id ha.covers (hheap'.trans hheap.symm) ha.covers.digests
  rintro ⟨c', hok', hdifference⟩
  obtain rfl := Except.ok.inj (hok.symm.trans hok')
  have hkept : 0 ∈ c.allImages false false := by
    refine (hmem 0).2 ⟨"sha256:1", by decide +kernel, ?_⟩
    have hnone : (pulledCollection [2]).allImages = [] := by decide +kernel
    rintro ⟨x, hx, -⟩
    rw [hnone] at hx
    cases hx
  obtain ⟨d, -, hnot, hd⟩ := (hdifference.mem 0).1 hkept
  refine hnot ⟨2, by decide +kernel, ?_⟩
  rw [← (ha.covers.filed d 0 hd).2]
  decide +kernel

end Sample

end RSPImageCollection

end Nublado.Images
