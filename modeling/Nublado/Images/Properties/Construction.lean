import Nublado.Images.Classes
import Nublado.Images.Properties.TagOrdering

/-!
# Construction in bulk

A collection is built from freshly built images with distinct tags, in any order.

* `init_resolves_classes`: under each digest the first target is found, or the first image if there is no
  target; that image lists the tags of exactly the other images of the digest; and the possible aliases of
  a digest with a target, and no others, are resolved to the image that is found.
* `mark_reaches_class`: marking a digest as seen on a node goes through the list of one image, and reaches
  exactly the images of the digest, because that list names all of them. This holds after any marking.
-/

namespace Nublado.Images

namespace RSPImageCollection

variable {base : Heap RSPImage} {c c' : RSPImageCollection} {m : List ℕ} {d : String} {r x : ℕ}

/-! ### Digests and their images -/

/-- The first image to be indexed is the first target, or the first image if there is no target. -/
theorem firstOf_indexOrder : firstOf base (indexOrder base m) d =
    (m.find? fun x ↦ (base x).digest = d ∧ (base x).isPossibleAlias = false).or
      (m.find? fun x ↦ (base x).digest = d) := by
  rw [firstOf, indexOrder, List.find?_append, List.find?_filter, List.find?_filter]
  have htarget : (m.find? fun x ↦
      (!(base x).isPossibleAlias) = true ∧ decide ((base x).digest = d) = true) =
      m.find? fun x ↦ (base x).digest = d ∧ (base x).isPossibleAlias = false := by
    congr 1
    funext x
    rcases (base x).isPossibleAlias with _ | _ <;> simp
  rw [htarget]
  rcases hfind : m.find? fun x ↦ (base x).digest = d ∧ (base x).isPossibleAlias = false with _ | r
  · have hall : ∀ x ∈ m, (base x).digest = d → (base x).isPossibleAlias = true := by
      simpa using hfind
    rw [Option.none_or, Option.none_or]
    rw [← List.head?_filter, ← List.head?_filter]
    refine congrArg List.head? (List.filter_congr fun x hx ↦ ?_)
    by_cases hd : (base x).digest = d
    · simp [hd, hall x hx hd]
    · simp [hd]
  · rfl

/-- The first image to be indexed is a target if there is one. -/
theorem first_isTarget (hr : firstOf base (indexOrder base m) d = some r) :
    (base r).isPossibleAlias = false ↔
      ∃ y ∈ m, (base y).digest = d ∧ (base y).isPossibleAlias = false := by
  obtain ⟨hrm, hrd⟩ := firstOf_mem hr
  constructor
  · exact fun hrp ↦ ⟨r, mem_indexOrder.1 hrm, hrd, hrp⟩
  · intro htarget
    rw [firstOf_indexOrder] at hr
    obtain ⟨y, hy, hyd, hyp⟩ := htarget
    rcases hfind : m.find? fun x ↦ (base x).digest = d ∧ (base x).isPossibleAlias = false with _ | r'
    · have hnone := List.find?_eq_none.1 hfind y hy
      simp [hyd, hyp] at hnone
    · rw [hfind, Option.some_or] at hr
      obtain rfl := Option.some.inj hr
      have hfirst := List.find?_some hfind
      simp only [decide_eq_true_eq] at hfirst
      exact hfirst.2

/-- The image found under a digest lists the tags of the other images of the digest. -/
theorem Classified.mem_first {title : String → String}
    (h : Classified title base (indexOrder base m) c) (hr : c.byDigest d = some r) (name : String) :
    name ∈ (c.images r).aliases ↔ ∃ y ∈ m, y ≠ r ∧ (base y).digest = d ∧ (base y).tag = name := by
  rw [h.byDigest] at hr
  obtain ⟨-, rfl⟩ := firstOf_mem hr
  rw [h.mem]
  simp only [knows_first hr, mem_indexOrder, and_assoc]

/-! ### Marking images as seen -/

/-- An image that was seen on a node. -/
def seenOn (node : String) (imageSize : Option ℕ) (image : RSPImage) : RSPImage :=
  { image with
    nodes := insert node image.nodes
    size := if imageSize = none ∨ imageSize = some 0 then image.size else imageSize }

/-- Seeing an image twice is seeing it once. -/
theorem seenOn_seenOn (node : String) (imageSize : Option ℕ) (image : RSPImage) :
    seenOn node imageSize (seenOn node imageSize image) = seenOn node imageSize image := by
  simp only [seenOn, Finset.insert_idem]
  split <;> rfl

theorem seeOnNode_images (c : RSPImageCollection) (i x : ℕ) (node : String)
    (imageSize : Option ℕ) : (c.seeOnNode i node imageSize).images x =
      if x = i then seenOn node imageSize (c.images x) else c.images x := by
  rw [seeOnNode, Heap.modify_apply]
  split
  · rcases imageSize with _ | _ | n <;> rfl
  · rfl

/-- Only images differ between the two collections. -/
theorem seeOnNode_sameIndex (c : RSPImageCollection) (i : ℕ) (node : String)
    (imageSize : Option ℕ) : SameIndex c (c.seeOnNode i node imageSize) := ⟨rfl, rfl, rfl⟩

/-- **The loop rule** for seeing the images of some names. -/
theorem foldl_seeOnNode {node : String} {imageSize : Option ℕ}
    {f : RSPImageCollection → String → RSPImageCollection}
    (hnone : ∀ c name, c.collection.tagForTagName name = none → f c name = c)
    (hsome : ∀ c name other, c.collection.tagForTagName name = some other →
      f c name = c.seeOnNode other node imageSize) (names : List String) :
    ∀ c : RSPImageCollection, SameIndex c (names.foldl f c) ∧ ∀ x, (names.foldl f c).images x =
      if ∃ name ∈ names, c.collection.tagForTagName name = some x then
        seenOn node imageSize (c.images x) else c.images x := by
  induction names with
  | nil => exact fun c ↦ ⟨.refl c, by simp⟩
  | cons name names ih =>
    intro c
    rw [List.foldl_cons]
    rcases hlookup : c.collection.tagForTagName name with _ | other
    · rw [hnone c name hlookup]
      simpa [hlookup] using ih c
    · rw [hsome c name other hlookup]
      obtain ⟨hindex, himages⟩ := ih (c.seeOnNode other node imageSize)
      refine ⟨(seeOnNode_sameIndex c other node imageSize).trans hindex, fun x ↦ ?_⟩
      rw [himages, seeOnNode_images]
      show (if ∃ n ∈ names, c.collection.tagForTagName n = some x then _ else _) = _
      simp only [List.mem_cons, exists_eq_or_imp, hlookup, Option.some.injEq]
      rcases eq_or_ne x other with rfl | hx
      · simp [seenOn_seenOn]
      · simp [hx, hx.symm]

/-- **The index of a collection that holds the images `m`**: what is found under a digest lists the
other images of the digest, and under its tag an image is found. -/
structure Complete (base : Heap RSPImage) (m : List ℕ) (c : RSPImageCollection) : Prop where
  absent : ∀ d, c.byDigest d = none → ∀ x ∈ m, (base x).digest ≠ d
  present : ∀ d r, c.byDigest d = some r → r ∈ m ∧ (base r).digest = d
  mem : ∀ d r, c.byDigest d = some r → ∀ name, name ∈ (c.images r).aliases ↔
    ∃ y ∈ m, y ≠ r ∧ (base y).digest = d ∧ (base y).tag = name
  finds : Finds base m c

/-- **Marking reaches the images of the digest.** -/
theorem Complete.mark (h : Complete base m c) (order : SetOrder) (d node : String)
    (imageSize : Option ℕ) : SameIndex c (c.markImageSeenOnNode order d node imageSize) ∧
      ∀ x, (c.markImageSeenOnNode order d node imageSize).images x =
        if x ∈ m ∧ (base x).digest = d then seenOn node imageSize (c.images x) else c.images x := by
  rcases hr : c.byDigest d with _ | r
  · have hsame : c.markImageSeenOnNode order d node imageSize = c := by
      rw [markImageSeenOnNode, hr]
    rw [hsame]
    exact ⟨.refl c, fun x ↦ (if_neg fun hx ↦ h.absent d hr x hx.1 hx.2).symm⟩
  · obtain ⟨hrm, hrd⟩ := h.present d r hr
    have hnames := h.mem d r hr
    obtain ⟨f, hmark, hfnone, hfsome⟩ : ∃ f, c.markImageSeenOnNode order d node imageSize =
          (order.toList (c.images r).aliases).foldl f (c.seeOnNode r node imageSize) ∧
        (∀ c name, c.collection.tagForTagName name = none → f c name = c) ∧
        ∀ c name other, c.collection.tagForTagName name = some other →
          f c name = c.seeOnNode other node imageSize := by
      rw [markImageSeenOnNode, hr]
      exact ⟨_, rfl, fun c name h ↦ by rw [h], fun c name other h ↦ by rw [h]⟩
    obtain ⟨hindex, himages⟩ := foldl_seeOnNode hfnone hfsome
      (order.toList (c.images r).aliases) (c.seeOnNode r node imageSize)
    rw [hmark]
    refine ⟨(seeOnNode_sameIndex c r node imageSize).trans hindex, fun x ↦ ?_⟩
    -- The names that are listed find the other images of the digest.
    have hlisted : (∃ name ∈ order.toList (c.images r).aliases,
        (c.seeOnNode r node imageSize).collection.tagForTagName name = some x) ↔
        x ∈ m ∧ x ≠ r ∧ (base x).digest = d := by
      simp only [order.mem_toList, hnames]
      constructor
      · rintro ⟨_, ⟨y, hy, hyr, hyd, rfl⟩, hlookup⟩
        obtain rfl := Option.some.inj ((h.finds y hy).symm.trans hlookup)
        exact ⟨hy, hyr, hyd⟩
      · rintro ⟨hx, hxr, hxd⟩
        exact ⟨_, ⟨x, hx, hxr, hxd, rfl⟩, h.finds x hx⟩
    rw [himages, seeOnNode_images, if_congr hlisted rfl rfl]
    rcases eq_or_ne x r with rfl | hx
    · simp [hrm, hrd]
    · simp [hx]

/-- Marking keeps the index complete. -/
theorem Complete.mark_complete (h : Complete base m c) (order : SetOrder) (d node : String)
    (imageSize : Option ℕ) : Complete base m (c.markImageSeenOnNode order d node imageSize) := by
  obtain ⟨hindex, himages⟩ := h.mark order d node imageSize
  refine ⟨fun e he ↦ ?_, fun e r he ↦ ?_, fun e r he name ↦ ?_, fun x hx ↦ ?_⟩
  · exact h.absent e (by rwa [hindex.byDigest] at he)
  · exact h.present e r (by rwa [hindex.byDigest] at he)
  · rw [hindex.byDigest] at he
    have haliases : ((c.markImageSeenOnNode order d node imageSize).images r).aliases =
        (c.images r).aliases := by
      rw [himages]
      split <;> rfl
    rw [haliases, h.mem e r he]
  · rw [hindex.collection]
    exact h.finds x hx

/-- The constructor leaves a complete index. -/
theorem Classified.complete {title : String → String}
    (h : Classified title base (indexOrder base m) c) (hfinds : Finds base m c) :
    Complete base m c := by
  refine ⟨fun d hd x hx ↦ ?_, fun d r hr ↦ ?_, fun d r hr ↦ h.mem_first hr, hfinds⟩
  · exact firstOf_eq_none.1 ((h.byDigest d).symm.trans hd) x (mem_indexOrder.2 hx)
  · obtain ⟨hrm, hrd⟩ := firstOf_mem ((h.byDigest d).symm.trans hr)
    exact ⟨mem_indexOrder.1 hrm, hrd⟩

section Building

variable [Ord Version] (order : SetOrder) (title : String → String)

/-- **Bulk construction resolves each digest.** -/
theorem init_resolves_classes (images : List RSPImage) (hfresh : ∀ image ∈ images, FromTag image)
    (htags : (images.map fun image ↦ image.tag).Nodup) :
    let base := Heap.ofList images
    let refs := List.range images.length
    ∃ c, init order title base refs = .ok c ∧ ∀ d ∈ images.map fun image ↦ image.digest,
      ∃ r, c.imageForDigest d = some r ∧
        some r = (refs.find? fun x ↦ (base x).digest = d ∧ (base x).isPossibleAlias = false).or
          (refs.find? fun x ↦ (base x).digest = d) ∧
        (∀ name, name ∈ (c.images r).aliases ↔
          ∃ y ∈ refs, y ≠ r ∧ (base y).digest = d ∧ (base y).tag = name) ∧
        ∀ x ∈ refs, (base x).digest = d →
          ((base x).isPossibleAlias = true →
            (∃ y ∈ refs, (base y).digest = d ∧ (base y).isPossibleAlias = false) →
            (c.images x).imageType = .alias ∧ (c.images x).aliasTarget = some (c.images r).tag) ∧
          ((base x).isPossibleAlias = false ∨
            (∀ y ∈ refs, (base y).digest = d → (base y).isPossibleAlias = true) →
            (c.images x).imageType = (base x).imageType ∧ (c.images x).aliasTarget = none) := by
  intro base refs
  have hpool : Pool base := pool_ofList hfresh htags
  obtain ⟨c, hok, h, -⟩ := init_classified order title hpool refs
    (fun x hx ↦ List.mem_range.1 hx) List.nodup_range none
  have hall : (refs.filter fun i ↦ (none : Option ℕ) = none ∨ (base i).cycle = none) = refs := by
    simp
  rw [hall] at h
  refine ⟨c, hok, fun d hd ↦ ?_⟩
  obtain ⟨r, hr⟩ : ∃ r, firstOf base (indexOrder base refs) d = some r := by
    obtain ⟨image, himage, rfl⟩ := List.mem_map.1 hd
    obtain ⟨i, hi, rfl⟩ := List.mem_iff_getElem.1 himage
    rw [← Option.ne_none_iff_exists', ne_eq, firstOf_eq_none]
    intro hnone
    refine hnone i (mem_indexOrder.2 (List.mem_range.2 hi)) ?_
    rw [show base i = images[i] from Heap.ofList_of_lt hi]
  have hby : c.byDigest d = some r := (h.byDigest d).trans hr
  refine ⟨r, hby, hr.symm.trans firstOf_indexOrder, h.mem_first hby, fun x hx hxd ↦ ?_⟩
  have hmem : x ∈ indexOrder base refs := mem_indexOrder.2 hx
  rw [h.tag, h.image x]
  constructor
  · intro hxp htarget
    rw [settled, if_pos ⟨hmem, hxp⟩, hxd, hr, Option.filter_some,
      if_pos (by simp [(first_isTarget hr).2 htarget])]
    exact ⟨rfl, rfl⟩
  · intro hkept
    have hsettled : settled title base (indexOrder base refs) x = base x := by
      rcases hkept with hxp | hnone
      · simp [settled, hxp]
      · have hrp : (base r).isPossibleAlias = true :=
          hnone r (mem_indexOrder.1 (firstOf_mem hr).1) (firstOf_mem hr).2
        rw [settled, hxd, hr, Option.filter_some, hrp]
        exact ite_self _
    rw [hsettled]
    exact ⟨rfl, hpool.target_eq x⟩

/-- **Marking reaches exactly one digest**, after whatever was marked before. -/
theorem mark_reaches_class (images : List RSPImage) (hfresh : ∀ image ∈ images, FromTag image)
    (htags : (images.map fun image ↦ image.tag).Nodup) (cycle : Option ℕ) :
    ∃ c, init order title (Heap.ofList images) (List.range images.length) cycle = .ok c ∧
      ∀ (calls : List (String × String × Option ℕ)) (d node : String) (imageSize : Option ℕ),
        let before := calls.foldl (fun c call ↦
          c.markImageSeenOnNode order call.1 call.2.1 call.2.2) c
        let after := before.markImageSeenOnNode order d node imageSize
        SameIndex before after ∧ ∀ x, after.images x =
          if x ∈ c.allImages false false ∧ (c.images x).digest = d then
            seenOn node imageSize (before.images x)
          else before.images x := by
  obtain ⟨base, hbase⟩ : ∃ base, base = Heap.ofList images := ⟨_, rfl⟩
  have hpool : Pool base := hbase ▸ pool_ofList hfresh htags
  have hsize : base.size = images.length := by simp [hbase]
  obtain ⟨c, hok, h, hinit⟩ := init_classified order title hpool (List.range images.length)
    (fun x hx ↦ hsize ▸ List.mem_range.1 hx) List.nodup_range cycle
  obtain ⟨m, hm⟩ : ∃ m, m = (List.range images.length).filter fun i ↦
    cycle = none ∨ (base i).cycle = cycle := ⟨_, rfl⟩
  rw [← hm] at h hinit
  have hindexed := RSPImageTagCollection.init_indexed hinit
  have hfinds : Finds base m c := finds_of_indexed hpool h.tag (fun x hx ↦ hsize ▸ List.mem_range.1
    (List.mem_of_mem_filter (hm ▸ hx))) hindexed
  have hmem : ∀ x, x ∈ c.allImages false false ↔ x ∈ m := by
    intro x
    rw [← hindexed.mem_allTags]
    simp [allImages]
  refine ⟨c, hbase ▸ hok, fun calls d node imageSize ↦ ?_⟩
  simp only [hmem, h.digest]
  have hcomplete : Complete base m (calls.foldl (fun c call ↦
      c.markImageSeenOnNode order call.1 call.2.1 call.2.2) c) := by
    induction calls using List.reverseRecOn with
    | nil => exact h.complete hfinds
    | append_singleton calls call ih =>
      rw [List.foldl_append]
      exact ih.mark_complete order _ _ _
  exact hcomplete.mark order d node imageSize

end Building

section Sample

local instance constructionPrecedence : Ord Version := semverPrecedence

/-- An alias, two weekly images of the same digest, and one of another digest. -/
def mixedImages : List RSPImage :=
  [("recommended", "sha256:1"), ("w_2077_46", "sha256:1"), ("w_2077_44", "sha256:2"),
    ("d_2077_11_13", "sha256:1")].map fun image ↦
      .fromTag (.fromStr image.1) "lighthouse.ceres" "library/sketchbook" image.2 none

theorem mixedImages_fromTag : ∀ image ∈ mixedImages, FromTag image := by
  intro image himage
  obtain ⟨tag, -, rfl⟩ := List.mem_map.1 himage
  exact ⟨_, _, _, _, _, rfl⟩

/-- The alias comes first, but the weekly image is found under the digest and the alias resolved to
it. -/
theorem init_resolves_classes_sample :
    ∃ c, init insertionOrder id (Heap.ofList mixedImages) (List.range 4) = .ok c ∧
      c.imageForDigest "sha256:1" = some 1 ∧
        (c.images 0).aliasTarget = some (c.images 1).tag := by
  obtain ⟨c, hok, h⟩ := init_resolves_classes insertionOrder id mixedImages mixedImages_fromTag
    (by decide +kernel)
  obtain ⟨r, hr, hfirst, -, hall⟩ := h "sha256:1" (by decide +kernel)
  have hr1 : some r = some 1 := hfirst.trans (by decide +kernel)
  obtain rfl := Option.some.inj hr1
  exact ⟨c, hok, hr, ((hall 0 (by decide) (by decide +kernel)).1 (by decide +kernel)
    ⟨1, by decide, by decide +kernel, by decide +kernel⟩).2⟩

/-- Two markings; the second does not touch the images of the first. -/
theorem mark_reaches_class_sample :
    ∃ c, init insertionOrder id (Heap.ofList mixedImages) (List.range 4) = .ok c ∧
      ∀ x, (((c.markImageSeenOnNode insertionOrder "sha256:2" "node1" none).markImageSeenOnNode
        insertionOrder "sha256:1" "node2" (some 7)).images x).nodes =
          if x ∈ c.allImages false false ∧ (c.images x).digest = "sha256:1" then
            insert "node2"
              ((c.markImageSeenOnNode insertionOrder "sha256:2" "node1" none).images x).nodes
          else ((c.markImageSeenOnNode insertionOrder "sha256:2" "node1" none).images x).nodes := by
  obtain ⟨c, hok, h⟩ := mark_reaches_class insertionOrder id mixedImages mixedImages_fromTag
    (by decide +kernel) none
  refine ⟨c, hok, fun x ↦ ?_⟩
  have himages := (h [("sha256:2", "node1", none)] "sha256:1" "node2" (some 7)).2 x
  simp only [List.foldl_cons, List.foldl_nil] at himages
  rw [himages]
  split <;> rfl

end Sample

end RSPImageCollection

end Nublado.Images
