import Nublado.Foundations.Except
import Nublado.Images.Properties.Pruning

/-!
# Whether deletions finish

Tags are deleted by digest, and a digest takes all its tags along. So a run that goes through
several tags of one digest asks for a tag, or for a digest, that it has deleted before.

* `deletion_finishes_iff`: with either manager, deleting tags and pruning finish exactly if no two of
  the tags to delete share a digest (and, for pruning, if the dates that the policy computes exist).
* `deleteTagged_eq`: the record that `DockerImagesManager.prune_images` keeps of the digests it has
  processed changes nothing. A tag is looked up before the record is consulted, and a tag whose
  digest is on record is no longer found.
* `deletion_does_not_finish` is the smallest failure: two tags of one digest.
-/

namespace Nublado.Images

/-- **A run finishes**: it raises nothing, and it asks for no digest twice. -/
structure Finishes (run : PruneRun) : Prop where
  completes : ∃ tags, run.result = .ok tags
  once : run.deleted.Nodup

/-- **A pruning run finishes and deletes the digests of the tags that a dry run reports.** -/
structure PrunesExactly (run : Bool → PruneRun) (digestOf : String → Option String) : Prop
    extends Finishes (run false) where
  digests : ∀ tags, (run true).result = .ok tags → ∀ digest,
    digest ∈ (run false).deleted ↔ ∃ tag ∈ tags, digestOf tag = some digest

/-- No two of these tags share a digest. -/
def Unshared (digestOf : String → Option String) (tags : List String) : Prop :=
  (tags.map digestOf).Nodup

/-- Digests that are those of some tags. -/
theorem mem_digests_iff {digestOf : String → Option String} {digests tags : List String}
    (h : digests.map some = tags.map digestOf) (digest : String) :
    digest ∈ digests ↔ ∃ tag ∈ tags, digestOf tag = some digest := by
  rw [← List.mem_map, ← h]
  simp

theorem nodup_digests_iff {digestOf : String → Option String} {digests tags : List String}
    (h : digests.map some = tags.map digestOf) : digests.Nodup ↔ Unshared digestOf tags := by
  rw [Unshared, ← h, List.nodup_map_iff (Option.some_injective _)]

/-- Whether a pruning run is exact, where the dates are in range exactly if `inRange`. -/
theorem prunesExactly_iff {run : Bool → PruneRun} {digestOf : String → Option String}
    {tags : List String} {inRange : Prop}
    (hraises : ¬ inRange → ∀ tags, (run false).result ≠ .ok tags)
    (hdry : inRange → (run true).result = .ok tags)
    (hfinishes : inRange → (Finishes (run false) ↔ Unshared digestOf tags))
    (hdeleted : inRange → Finishes (run false) → (run false).deleted.map some = tags.map digestOf) :
    PrunesExactly run digestOf ↔ inRange ∧ Unshared digestOf tags := by
  constructor
  · intro h
    have hrange : inRange := by
      by_contra hout
      obtain ⟨_, hok⟩ := h.completes
      exact hraises hout _ hok
    exact ⟨hrange, (hfinishes hrange).1 h.toFinishes⟩
  · rintro ⟨hrange, hunshared⟩
    have hfinish := (hfinishes hrange).2 hunshared
    refine ⟨hfinish, fun tags' htags' digest ↦ ?_⟩
    obtain rfl := Except.ok.inj ((hdry hrange).symm.trans htags')
    exact mem_digests_iff (hdeleted hrange hfinish) digest

variable {reg : Registry} {name : String}

/-! ### The Docker API -/

namespace DockerImagesManager

/-- **Deleting tags one by one** completes exactly if all of them exist and no two share a digest, and
then it deletes their digests in this order. -/
theorem deleteTags_spec (tags : List String) : ∀ reg : Registry, reg.WellFormed name →
    ((∃ result, (deleteTags name tags reg).result = .ok result) ↔
      (∀ tag ∈ tags, (reg.getImageDigest name tag).isSome) ∧
        Unshared (reg.getImageDigest name) tags) ∧
    ((∃ result, (deleteTags name tags reg).result = .ok result) →
      (deleteTags name tags reg).deleted.map some = tags.map (reg.getImageDigest name)) := by
  induction tags with
  | nil => exact fun reg _ ↦ ⟨by simp [deleteTags, Unshared], fun _ ↦ rfl⟩
  | cons tag tags ih =>
    intro reg hreg
    rcases hdigest : reg.getImageDigest name tag with _ | digest
    · have hraises : ¬ ∃ result, (deleteTags name (tag :: tags) reg).result = .ok result := by
        rw [deleteTags, hdigest]
        rintro ⟨result, hresult⟩
        cases hresult
      refine ⟨iff_of_false hraises fun h ↦ ?_, fun h ↦ absurd h hraises⟩
      simpa [hdigest] using h.1 tag List.mem_cons_self
    · have hstep : deleteTags name (tag :: tags) reg =
          ⟨digest :: (deleteTags name tags (reg.deleteImage name digest)).deleted,
            (deleteTags name tags (reg.deleteImage name digest)).result⟩ := by
        rw [deleteTags, hdigest]
      obtain ⟨hcompletes, hdeleted⟩ := ih _ (hreg.deleteImage digest)
      -- Later tags must not have had the digest.
      have hrest : (∀ t ∈ tags, ((reg.deleteImage name digest).getImageDigest name t).isSome) ↔
          (∀ t ∈ tags, (reg.getImageDigest name t).isSome) ∧
            some digest ∉ tags.map (reg.getImageDigest name) := by
        rw [List.mem_map, not_exists, ← forall_and]
        refine forall_congr' fun t ↦ ?_
        rw [hreg.getImageDigest_deleteImage]
        by_cases ht : reg.getImageDigest name t = some digest
        · simp [ht]
        · simp [ht]
      have hsame : (∀ t ∈ tags, ((reg.deleteImage name digest).getImageDigest name t).isSome) →
          tags.map ((reg.deleteImage name digest).getImageDigest name) =
            tags.map (reg.getImageDigest name) := by
        intro hfound
        refine List.map_congr_left fun t ht ↦ ?_
        have hsome := hfound t ht
        rw [hreg.getImageDigest_deleteImage] at hsome ⊢
        split at hsome
        · cases hsome
        · next hne => rw [if_neg hne]
      rw [hstep]
      constructor
      · show (∃ result, (deleteTags name tags _).result = .ok result) ↔ _
        rw [hcompletes, List.forall_mem_cons, Unshared, Unshared, List.map_cons, List.nodup_cons,
          hdigest]
        constructor
        · rintro ⟨hfound, hnodup⟩
          rw [hsame hfound] at hnodup
          exact ⟨⟨rfl, (hrest.1 hfound).1⟩, (hrest.1 hfound).2, hnodup⟩
        · rintro ⟨⟨-, hfound⟩, hnew, hnodup⟩
          have hfound := hrest.2 ⟨hfound, hnew⟩
          exact ⟨hfound, by rwa [hsame hfound]⟩
      · intro hcomplete
        rw [List.map_cons, List.map_cons, hdigest, hdeleted hcomplete,
          hsame (hcompletes.1 hcomplete).1]

/-- **When deleting existing tags finishes.** -/
theorem deleteTags_finishes_iff (hreg : reg.WellFormed name) {tags : List String}
    (htags : ∀ tag ∈ tags, (reg.getImageDigest name tag).isSome) :
    Finishes (deleteTags name tags reg) ↔ Unshared (reg.getImageDigest name) tags := by
  obtain ⟨hcompletes, hdeleted⟩ := deleteTags_spec tags reg hreg
  constructor
  · exact fun h ↦ (hcompletes.1 h.completes).2
  · intro hunshared
    have hcomplete := hcompletes.2 ⟨htags, hunshared⟩
    exact ⟨hcomplete, (nodup_digests_iff (hdeleted hcomplete)).2 hunshared⟩

/-- **The record of digests changes nothing**: no tag is found any more whose digest is on record. -/
theorem deleteTagged_eq (tags : List String) : ∀ (reg : Registry) (deleted : List String),
    reg.WellFormed name →
    (∀ tag, ∀ digest ∈ deleted, reg.getImageDigest name tag ≠ some digest) →
    deleteTagged name tags reg deleted =
      ⟨deleted ++ (deleteTags name tags reg).deleted, (deleteTags name tags reg).result⟩ := by
  induction tags with
  | nil =>
    intro reg deleted _ _
    rw [deleteTagged, deleteTags, List.append_nil]
  | cons tag tags ih =>
    intro reg deleted hreg hgone
    rcases hdigest : reg.getImageDigest name tag with _ | digest
    · simp only [deleteTagged, deleteTags, hdigest, List.append_nil]
    · have hnew : digest ∉ deleted := fun hmem ↦ hgone tag digest hmem hdigest
      have hgone' : ∀ t, ∀ e ∈ deleted ++ [digest],
          (reg.deleteImage name digest).getImageDigest name t ≠ some e := by
        intro t e he
        rw [hreg.getImageDigest_deleteImage]
        split
        · simp
        · next hne =>
          rcases List.mem_append.1 he with he | he
          · exact hgone t e he
          · rwa [List.mem_singleton.1 he]
      simp only [deleteTagged, deleteTags, hdigest, if_neg hnew]
      rw [ih _ _ (hreg.deleteImage digest) hgone', List.append_assoc, List.singleton_append]

end DockerImagesManager

/-! ### Google Artifact Registry -/

/-- The images that are left when some digests are deleted. -/
theorem Registry.mem_foldl_deleteImage {image : RegistryImage} (digests : List String) :
    ∀ reg : Registry, image ∈ digests.foldl (fun reg digest ↦ reg.deleteImage name digest) reg ↔
      image ∈ reg ∧ ¬ (image.name = name ∧ image.digest ∈ digests) := by
  induction digests with
  | nil => simp
  | cons digest digests ih =>
    intro reg
    rw [List.foldl_cons, ih, Registry.deleteImage]
    simp only [List.mem_filter, List.mem_cons, decide_eq_true_eq]
    tauto

/-- A tag that is found has a digest that the registry has. -/
theorem Registry.exists_of_getImageDigest {tag digest : String}
    (h : reg.getImageDigest name tag = some digest) :
    ∃ image ∈ reg, image.name = name ∧ image.digest = digest := by
  obtain ⟨l₁, l₂, hsplit, -⟩ := List.lookup_eq_some_iff.1 h
  have hmem : (tag, digest) ∈ reg.tagged name := by simp [hsplit]
  obtain ⟨image, himage, htag⟩ := List.mem_flatMap.1 hmem
  obtain ⟨_, -, heq⟩ := List.mem_map.1 htag
  exact ⟨image, List.mem_of_mem_filter himage, by simpa using (List.mem_filter.1 himage).2,
    (Prod.mk.inj heq).2⟩

namespace GARImagesManager

/-- A run that completes has deleted all digests. -/
theorem sendBatches_deleted (batches : List (List String)) :
    ∀ {reg : Registry} {tags : List String}, (sendBatches name batches reg).result = .ok tags →
      (sendBatches name batches reg).deleted = batches.flatten := by
  induction batches with
  | nil => exact fun _ ↦ rfl
  | cons batch batches ih =>
    intro reg tags h
    rw [sendBatches] at h ⊢
    rcases hreg : reg.batchDeleteVersions name batch with _ | reg'
    · rw [hreg] at h
      cases h
    · rw [hreg] at h
      rw [List.flatten_cons, ← ih h]

/-- **A run completes** if it asks for digests that exist, and for none twice. -/
theorem sendBatches_completes (batches : List (List String)) : ∀ reg : Registry,
    (∀ digest ∈ batches.flatten, ∃ image ∈ reg, image.name = name ∧ image.digest = digest) →
    batches.flatten.Nodup → (sendBatches name batches reg).result = .ok [] := by
  induction batches with
  | nil => exact fun _ _ _ ↦ rfl
  | cons batch batches ih =>
    intro reg hexist hnodup
    rw [List.flatten_cons] at hexist hnodup
    obtain ⟨-, hrest, hdisjoint⟩ := List.nodup_append.1 hnodup
    rw [sendBatches, Registry.batchDeleteVersions,
      if_pos fun digest hdigest ↦ hexist digest (List.mem_append_left _ hdigest)]
    refine ih _ (fun digest hdigest ↦ ?_) hrest
    obtain ⟨image, himage, hname, rfl⟩ := hexist digest (List.mem_append_right _ hdigest)
    refine ⟨image, (Registry.mem_foldl_deleteImage batch reg).2 ⟨himage, fun hgone ↦ ?_⟩, hname,
      rfl⟩
    exact hdisjoint _ hgone.2 _ hdigest rfl

/-- **When a run of requests finishes**, all digests being there at first. -/
theorem served_finishes_iff {run : PruneRun} (hok : ∃ tags, run.result = .ok tags)
    (hexist : ∀ digest ∈ run.deleted, ∃ image ∈ reg, image.name = name ∧ image.digest = digest) :
    (Finishes (served name reg run) ↔ run.deleted.Nodup) ∧
      (Finishes (served name reg run) → (served name reg run).deleted = run.deleted) := by
  have hflatten : (batched garDeleteBatchSize [] run.deleted).flatten = run.deleted :=
    batched_flatten _ _ _
  have hall : ∀ {tags}, (served name reg run).result = .ok tags →
      (served name reg run).deleted = run.deleted := by
    intro tags h
    obtain ⟨_, hsent, -⟩ := bind_eq_ok.1 h
    exact (sendBatches_deleted _ hsent).trans hflatten
  refine ⟨⟨fun h ↦ ?_, fun hnodup ↦ ?_⟩, fun h ↦ ?_⟩
  · obtain ⟨tags, htags⟩ := h.completes
    exact hall htags ▸ h.once
  · obtain ⟨tags, htags⟩ := hok
    have hsent := sendBatches_completes (batched garDeleteBatchSize [] run.deleted) reg
      (by rwa [hflatten]) (by rwa [hflatten])
    have hresult : (served name reg run).result = .ok tags := bind_eq_ok.2 ⟨[], hsent, htags⟩
    exact ⟨⟨tags, hresult⟩, (hall hresult).symm ▸ hnodup⟩
  · obtain ⟨tags, htags⟩ := h.completes
    exact hall htags

/-- What a run asks for are digests that exist, if they are those of some tags. -/
theorem served_finishes_iff_unshared {run : PruneRun} {tags : List String}
    (hok : ∃ tags, run.result = .ok tags)
    (hdigests : run.deleted.map some = tags.map (reg.getImageDigest name)) :
    (Finishes (served name reg run) ↔ Unshared (reg.getImageDigest name) tags) ∧
      (Finishes (served name reg run) →
        (served name reg run).deleted.map some = tags.map (reg.getImageDigest name)) := by
  have hexist : ∀ digest ∈ run.deleted,
      ∃ image ∈ reg, image.name = name ∧ image.digest = digest := by
    intro digest hdigest
    obtain ⟨tag, -, htag⟩ := (mem_digests_iff hdigests digest).1 hdigest
    exact Registry.exists_of_getImageDigest htag
  obtain ⟨hfinishes, hdeleted⟩ := served_finishes_iff hok hexist
  exact ⟨hfinishes.trans (nodup_digests_iff hdigests), fun h ↦ by rw [hdeleted h, hdigests]⟩

variable [Ord Version] (order : SetOrder) (title : String → String) {registry path : String}

/-- **The image collection finds the tags** and knows their digests. -/
theorem listImages_finds (hreg : reg.WellFormed name) :
    ∃ c, listImages order title registry path name reg = .ok c ∧ ∀ tag,
      (c.imageForTagName tag).map (fun i ↦ (c.images i).digest) = reg.getImageDigest name tag := by
  obtain ⟨htagged, himages⟩ : _ ∧ ∀ image ∈ fetchImageList registry path name reg, _ :=
    fetchImageList_tagged hreg
  rw [listImages]
  generalize fetchImageList registry path name reg = images at htagged himages ⊢
  have hnames : images.map (fun image ↦ image.tag) = (reg.tagged name).map Prod.fst := by
    rw [← htagged, List.map_map]
    rfl
  have hpool : Pool (Heap.ofList images) :=
    RSPImageCollection.pool_ofList (fun image h ↦ (himages image h).1) (hnames ▸ hreg.tags_nodup)
  obtain ⟨c, hinit, htracks, -⟩ := RSPImageCollection.init_spec order title hpool
    (List.range images.length) (fun i hi ↦ List.mem_range.1 hi) List.nodup_range none
  have hconsistent := htracks.consistent
  have hindexed := htracks.indexed
  have hall : (List.range images.length).filter
      (fun i ↦ (none : Option ℕ) = none ∨ (Heap.ofList images i).cycle = none) =
        List.range images.length := by simp
  rw [hall] at hindexed
  have hlt : ∀ x ∈ List.range images.length, x < (Heap.ofList images).size :=
    fun x hx ↦ List.mem_range.1 hx
  have hpair : ∀ {i}, i < images.length →
      ((c.images i).tag, (c.images i).digest) ∈ reg.tagged name := fun hi ↦ by
    rw [hconsistent.tag, hconsistent.digest, Heap.ofList_of_lt hi, ← htagged]
    exact List.mem_map_of_mem (List.getElem_mem hi)
  refine ⟨c, hinit, fun tag ↦ ?_⟩
  rcases hfind : c.imageForTagName tag with _ | i
  · -- A tag that the registry has is one of an image.
    rcases hdigest : reg.getImageDigest name tag with _ | digest
    · rfl
    · have htag : tag ∈ images.map fun image ↦ image.tag := by
        rw [hnames, hreg.mem_names_iff, hdigest]
        rfl
      obtain ⟨image, himage, rfl⟩ := List.mem_map.1 htag
      obtain ⟨i, hi, rfl⟩ := List.mem_iff_getElem.1 himage
      have hfinds := RSPImageCollection.finds_of_indexed hpool hconsistent.tag hlt hindexed i
        (List.mem_range.2 hi)
      rw [Heap.ofList_of_lt hi] at hfinds
      cases hfind.symm.trans hfinds
  · obtain ⟨hi, htag⟩ :=
      RSPImageCollection.refers_of_indexed hconsistent.tag hlt hindexed tag i hfind
    rw [← hconsistent.tag] at htag
    rw [Option.map_some, ← htag]
    exact (hreg.getImageDigest_of_mem (hpair hi)).symm

/-- **When deleting existing tags finishes.** -/
theorem deleteTags_finishes_iff (hreg : reg.WellFormed name) {tags : List String}
    (htags : ∀ tag ∈ tags, (reg.getImageDigest name tag).isSome) :
    Finishes (served name reg (deleteTags order title registry path name tags reg)) ↔
      Unshared (reg.getImageDigest name) tags := by
  obtain ⟨c, hlist, hfinds⟩ := @listImages_finds reg name _ order title registry path hreg
  have hrun : deleteTags order title registry path name tags reg =
      ⟨tags.filterMap (reg.getImageDigest name), .ok []⟩ := by
    rw [deleteTags, hlist]
    simp only [hfinds, deleteImages, batched_flatten, List.nil_append]
  rw [hrun]
  refine (served_finishes_iff_unshared ⟨[], rfl⟩ ?_).1
  rw [List.map_filterMap]
  clear hrun
  induction tags with
  | nil => rfl
  | cons tag tags ih =>
    obtain ⟨digest, hdigest⟩ := Option.isSome_iff_exists.1 (htags tag List.mem_cons_self)
    rw [List.filterMap_cons_some (by rw [hdigest]; rfl), List.map_cons, hdigest,
      ih fun t ht ↦ htags t (List.mem_cons_of_mem _ ht)]

end GARImagesManager

/-! ### Pruning -/

section Runs

variable [Ord Version] (order : SetOrder) (title : String → String) {registry path : String}

/-- Pruning with the Docker API. -/
theorem DockerImagesManager.prunesExactly_iff (hreg : reg.WellFormed name)
    (policy : ImageFilterPolicy) (now : Datetime) :
    PrunesExactly (fun dryRun ↦ pruneImages order title name policy now dryRun reg)
        (reg.getImageDigest name) ↔
      DatesInRange policy now ∧ Unshared (reg.getImageDigest name)
        (prunable policy now (order.toList (reg.listTags name))) := by
  obtain ⟨tags, htags⟩ : ∃ tags, tags = prunable policy now (order.toList (reg.listTags name)) :=
    ⟨_, rfl⟩
  have hfound : ∀ tag ∈ tags, (reg.getImageDigest name tag).isSome := by
    intro tag htag
    rw [htags, mem_prunable fun t ht ↦ hreg.ne_of_mem_names t ((mem_listed order).1 ht)] at htag
    exact (hreg.mem_names_iff tag).1 ((mem_listed order).1 htag.1)
  obtain ⟨hcompletes, hdeleted⟩ := deleteTags_spec tags reg hreg
  -- A run deletes the tags that a dry run reports, like `deleteTags`.
  have hrun : DatesInRange policy now → pruneImages order title name policy now false reg =
      ⟨(deleteTags name tags reg).deleted, (deleteTags name tags reg).result.map fun _ ↦ tags⟩ := by
    intro hrange
    rw [pruneImages_eq order title hreg]
    simp only [if_pos hrange, ← htags, Bool.false_eq_true, if_false]
    rw [deleteTagged_eq tags reg [] hreg fun _ _ h ↦ absurd h List.not_mem_nil, List.nil_append]
  have hok : ∀ hrange : DatesInRange policy now, (∃ result,
      (pruneImages order title name policy now false reg).result = .ok result) ↔
      ∃ result, (deleteTags name tags reg).result = .ok result := by
    intro hrange
    rw [hrun hrange]
    constructor
    · rintro ⟨result, hresult⟩
      obtain ⟨result', hresult', -⟩ := map_eq_ok.1 hresult
      exact ⟨result', hresult'⟩
    · rintro ⟨result, hresult⟩
      exact ⟨tags, map_eq_ok.2 ⟨result, hresult, rfl⟩⟩
  rw [← htags]
  refine Images.prunesExactly_iff (fun hout tags' h ↦ ?_) (fun hrange ↦ ?_) (fun hrange ↦ ?_)
    fun hrange hfinish ↦ ?_
  · rw [pruneImages_eq order title hreg, if_neg hout] at h
    cases h
  · rw [pruneImages_eq order title hreg]
    simp only [if_pos hrange, if_true, htags]
  · rw [← deleteTags_finishes_iff hreg hfound]
    constructor
    · intro h
      refine ⟨(hok hrange).1 h.completes, ?_⟩
      have honce := h.once
      rwa [hrun hrange] at honce
    · intro h
      refine ⟨(hok hrange).2 h.completes, ?_⟩
      rw [hrun hrange]
      exact h.once
  · have hcomplete := (hok hrange).1 hfinish.completes
    rw [hrun hrange]
    exact hdeleted hcomplete

/-- Pruning with Artifact Registry. -/
theorem GARImagesManager.prunesExactly_iff (hreg : reg.WellFormed name)
    (policy : ImageFilterPolicy) (now : Datetime) :
    PrunesExactly (fun dryRun ↦ served name reg
        (pruneImages order title registry path name policy now dryRun reg))
        (reg.getImageDigest name) ↔
      DatesInRange policy now ∧ Unshared (reg.getImageDigest name)
        (prunable policy now ((reg.tagged name).map Prod.fst)) := by
  obtain ⟨digests, hdigests, hrun⟩ := pruneImages_spec order title hreg policy now
  refine Images.prunesExactly_iff (fun hout tags h ↦ ?_) (fun hrange ↦ ?_) (fun hrange ↦ ?_)
    fun hrange ↦ ?_
  · rw [hrun, if_neg hout] at h
    obtain ⟨_, -, hresult⟩ := bind_eq_ok.1 h
    cases hresult
  · rw [hrun, if_pos hrange]
    rfl
  · rw [hrun, if_pos hrange]
    exact (served_finishes_iff_unshared ⟨_, rfl⟩ (hdigests hrange)).1
  · rw [hrun, if_pos hrange]
    exact (served_finishes_iff_unshared ⟨_, rfl⟩ (hdigests hrange)).2

variable (registry path) in
/-- **When deletions finish**: no two of the tags to delete share a digest. -/
theorem deletion_finishes_iff (hreg : reg.WellFormed name) :
    (∀ tags : List String, (∀ tag ∈ tags, (reg.getImageDigest name tag).isSome) →
      (Finishes (DockerImagesManager.deleteTags name tags reg) ↔
        Unshared (reg.getImageDigest name) tags) ∧
      (Finishes (GARImagesManager.served name reg
          (GARImagesManager.deleteTags order title registry path name tags reg)) ↔
        Unshared (reg.getImageDigest name) tags)) ∧
    ∀ (policy : ImageFilterPolicy) (now : Datetime),
      (PrunesExactly
          (fun dryRun ↦ DockerImagesManager.pruneImages order title name policy now dryRun reg)
          (reg.getImageDigest name) ↔
        DatesInRange policy now ∧ Unshared (reg.getImageDigest name)
          (prunable policy now (order.toList (reg.listTags name)))) ∧
      (PrunesExactly
          (fun dryRun ↦ GARImagesManager.served name reg
            (GARImagesManager.pruneImages order title registry path name policy now dryRun reg))
          (reg.getImageDigest name) ↔
        DatesInRange policy now ∧ Unshared (reg.getImageDigest name)
          (prunable policy now ((reg.tagged name).map Prod.fst))) :=
  ⟨fun _ htags ↦ ⟨DockerImagesManager.deleteTags_finishes_iff hreg htags,
      GARImagesManager.deleteTags_finishes_iff order title hreg htags⟩,
    fun policy now ↦ ⟨DockerImagesManager.prunesExactly_iff order title hreg policy now,
      GARImagesManager.prunesExactly_iff order title hreg policy now⟩⟩

end Runs

section Sample

local instance deletionPrecedence : Ord Version := semverPrecedence

/-- Images with one tag each are deleted and pruned. -/
theorem deletion_finishes_sample :
    Finishes (DockerImagesManager.deleteTags "sciplat-lab" ["w_2021_21", "w_2021_22"]
      (sampleRegistry [])) ∧
    PrunesExactly (fun dryRun ↦ GARImagesManager.served "sciplat-lab" (sampleRegistry [])
      (GARImagesManager.pruneImages RSPImageCollection.alphabetical id "us-docker.pkg.dev" "path"
        "sciplat-lab" latestWeekly 0 dryRun (sampleRegistry [])))
      ((sampleRegistry []).getImageDigest "sciplat-lab") := by
  have hreg : (sampleRegistry []).WellFormed "sciplat-lab" :=
    ⟨by decide +kernel, by decide +kernel⟩
  obtain ⟨hdelete, hprune⟩ := deletion_finishes_iff RSPImageCollection.alphabetical id
    "us-docker.pkg.dev" "path" hreg
  have hunshared : ∀ tags : List String,
      (tags.map ((sampleRegistry []).getImageDigest "sciplat-lab")).Nodup →
        Unshared ((sampleRegistry []).getImageDigest "sciplat-lab") tags := fun _ h ↦ h
  refine ⟨(hdelete ["w_2021_21", "w_2021_22"] ?_).1.2 (hunshared _ ?_),
    (hprune latestWeekly 0).2.2 ⟨?_, hunshared _ ?_⟩⟩
  · decide +kernel
  · decide +kernel
  · decide +kernel
  · decide +kernel

/-- **Two tags of one digest**: no run finishes. -/
theorem deletion_does_not_finish :
    (sampleRegistry ["w_2021_20"]).WellFormed "sciplat-lab" ∧
    ¬ Finishes (DockerImagesManager.deleteTags "sciplat-lab" ["w_2021_20", "w_2021_21"]
      (sampleRegistry ["w_2021_20"])) ∧
    ¬ Finishes (GARImagesManager.served "sciplat-lab" (sampleRegistry ["w_2021_20"])
      (GARImagesManager.deleteTags RSPImageCollection.alphabetical id "us-docker.pkg.dev" "path"
        "sciplat-lab" ["w_2021_20", "w_2021_21"] (sampleRegistry ["w_2021_20"]))) ∧
    ¬ PrunesExactly (fun dryRun ↦ DockerImagesManager.pruneImages RSPImageCollection.alphabetical id
      "sciplat-lab" latestWeekly 0 dryRun (sampleRegistry ["w_2021_20"]))
      ((sampleRegistry ["w_2021_20"]).getImageDigest "sciplat-lab") ∧
    ¬ PrunesExactly (fun dryRun ↦ GARImagesManager.served "sciplat-lab"
      (sampleRegistry ["w_2021_20"]) (GARImagesManager.pruneImages RSPImageCollection.alphabetical
        id "us-docker.pkg.dev" "path" "sciplat-lab" latestWeekly 0 dryRun
        (sampleRegistry ["w_2021_20"])))
      ((sampleRegistry ["w_2021_20"]).getImageDigest "sciplat-lab") := by
  have hreg : (sampleRegistry ["w_2021_20"]).WellFormed "sciplat-lab" :=
    ⟨by decide +kernel, by decide +kernel⟩
  have hexist : ∀ tag ∈ ["w_2021_20", "w_2021_21"],
      ((sampleRegistry ["w_2021_20"]).getImageDigest "sciplat-lab" tag).isSome := by decide +kernel
  have hshared : ¬ Unshared ((sampleRegistry ["w_2021_20"]).getImageDigest "sciplat-lab")
      ["w_2021_20", "w_2021_21"] := by
    rw [Unshared]
    decide +kernel
  have hpruned : ¬ Unshared ((sampleRegistry ["w_2021_20"]).getImageDigest "sciplat-lab")
      (prunable latestWeekly 0 (((sampleRegistry ["w_2021_20"]).tagged "sciplat-lab").map
        Prod.fst)) := by
    rw [Unshared]
    decide +kernel
  refine ⟨hreg, fun h ↦ ?_, fun h ↦ ?_, fun h ↦ ?_, fun h ↦ ?_⟩
  · exact hshared ((DockerImagesManager.deleteTags_finishes_iff hreg hexist).1 h)
  · exact hshared ((GARImagesManager.deleteTags_finishes_iff _ _ hreg hexist).1 h)
  · have hunshared := ((DockerImagesManager.prunesExactly_iff _ _ hreg latestWeekly 0).1 h).2
    rw [toList_listTags (by decide +kernel) (by decide +kernel)] at hunshared
    exact hpruned hunshared
  · exact hpruned ((GARImagesManager.prunesExactly_iff _ _ hreg latestWeekly 0).1 h).2

end Sample

end Nublado.Images
