import Nublado.Images.Properties.AliasTracking
import Nublado.Images.Prune

/-!
# What pruning takes

Pruning computes a list of tags and deletes digests, and a digest goes with all the tags that point to
it. The policy speaks about tags only, so a digest that a rejected tag shares with a retained one takes
the retained tag along.

* `Retains` says which tags a policy retains, and `prunable` lists the others in the order in which
  both managers return them. Aliases and tags of unknown type are always retained.
* `prune_safe_iff` says exactly when a run never takes a retained tag's image. For Artifact Registry:
  no rejected tag shares its digest with a retained one. For the Docker API the loop stops with an
  error at the second rejected tag of one digest, because the first deletion removed the tag; only the
  rejected tags before that one count.
* `prune_takes_retained` is a registry where both managers delete the image of a retained alias.
-/

namespace Nublado.Images

section Runs

variable [Ord Version]

/-! ### Which tags a policy retains -/

/-- The tags of a type among the tags of these names, from greatest to least. -/
def tagsOfType (names : List String) (t : RSPImageType) : List RSPImageTag :=
  RSPImageTagCollection.sorted id
    ((names.map RSPImageTag.fromStr).filter fun tag ↦ tag.imageType = t)

/-- Whether the policy retains the tag of this name among the tags of all the names. -/
def Retains (policy : ImageFilterPolicy) (now : Datetime) (names : List String) (name : String) :
    Prop :=
  let t := (RSPImageTag.fromStr name).imageType
  RSPImageTagCollection.Accepts (policy.forImageType t) now (tagsOfType names t) name

instance (policy : ImageFilterPolicy) (now : Datetime) (names : List String) (name : String) :
    Decidable (Retains policy now names name) :=
  inferInstanceAs (Decidable (RSPImageTagCollection.Accepts _ _ _ _))

/-- The names that the policy does not retain, in the standard order. -/
def prunable (policy : ImageFilterPolicy) (now : Datetime) (names : List String) : List String :=
  RSPImageType.all.flatMap fun t ↦
    ((tagsOfType names t).map RSPImageTag.tag).filter fun name ↦ ¬ Retains policy now names name

/-- Whether the dates that the policy computes exist. -/
def DatesInRange (policy : ImageFilterPolicy) (now : Datetime) : Prop :=
  ∀ t ∈ RSPImageType.all, RSPImageTagCollection.InRange (policy.forImageType t) now

instance (policy : ImageFilterPolicy) (now : Datetime) : Decidable (DatesInRange policy now) :=
  inferInstanceAs (Decidable (∀ t ∈ RSPImageType.all, _))

omit [Ord Version] in
/-- Parsing keeps the tag itself. -/
theorem fromChars_tag (fuel : ℕ) (tag : List Char) :
    (RSPImageTag.fromChars fuel tag).tag = String.ofList tag := by
  cases fuel with
  | zero => rfl
  | succ fuel =>
    rw [RSPImageTag.fromChars]
    rcases hfind : tagRegexes.findSome? _ with _ | t
    · rfl
    · obtain ⟨⟨imageType, regex⟩, -, hmatch⟩ := List.exists_of_findSome?_eq_some hfind
      obtain ⟨data, -, hdata⟩ := Option.bind_eq_some_iff.1 hmatch
      rw [RSPImageTag.fromMatch] at hdata
      split at hdata
      · rcases hrest : data.lookup "rest" with _ | _ | _
        · simp [hrest] at hdata
        · simp [hrest] at hdata
        · simp only [hrest] at hdata
          obtain rfl := Option.some.inj hdata
          rfl
      · simp only [Option.bind_eq_bind, Option.bind_eq_some_iff] at hdata
        obtain ⟨_, -, _, -, _, -, _, -, _, -, hdata⟩ := hdata
        obtain rfl := Option.some.inj hdata
        rfl

omit [Ord Version] in
theorem fromStr_tag {name : String} (h : name ≠ "") : (RSPImageTag.fromStr name).tag = name := by
  rw [RSPImageTag.fromStr, fromChars_tag, if_neg h, String.ofList_toList]

variable {names : List String} {policy : ImageFilterPolicy} {now : Datetime}

theorem mem_tagsOfType {t : RSPImageType} {tag : RSPImageTag} :
    tag ∈ tagsOfType names t ↔ (∃ name ∈ names, .fromStr name = tag) ∧ tag.imageType = t := by
  simp [tagsOfType, RSPImageTagCollection.sorted]

/-- **The names to prune are the names that are not retained.** -/
theorem mem_prunable (hne : ∀ name ∈ names, name ≠ "") {name : String} :
    name ∈ prunable policy now names ↔ name ∈ names ∧ ¬ Retains policy now names name := by
  simp only [prunable, List.mem_flatMap, RSPImageType.mem_all, true_and, List.mem_filter,
    List.mem_map, mem_tagsOfType, decide_eq_true_eq]
  constructor
  · rintro ⟨t, ⟨_, ⟨⟨name', hname, rfl⟩, -⟩, rfl⟩, hreject⟩
    rw [fromStr_tag (hne name' hname)] at hreject ⊢
    exact ⟨hname, hreject⟩
  · rintro ⟨hname, hreject⟩
    exact ⟨_, ⟨.fromStr name, ⟨⟨name, hname, rfl⟩, rfl⟩, fromStr_tag (hne name hname)⟩, hreject⟩

variable (policy now) in
/-- Inverted filtering of a collection that lists the tags of these names under every type that is
filtered yields the names to prune. -/
theorem filter_prunable {T : Type} {view : T → RSPImageTag} (c : RSPImageTagCollection T)
    (hne : ∀ name ∈ names, name ≠ "")
    (hc : ∀ t, policy.forImageType t ≠ none → (c.byType t).map view = tagsOfType names t) :
    (c.filter view policy now true false).map (List.map fun tag ↦ (view tag).tag) =
      if DatesInRange policy now then some (prunable policy now names) else none := by
  rw [RSPImageTagCollection.filter_inverted]
  by_cases hrange : ∀ t ∈ RSPImageType.all,
      RSPImageTagCollection.InRange (policy.forImageType t) now
  · rw [if_pos hrange, if_pos (show DatesInRange policy now from hrange), Option.map_some, List.map_flatMap, prunable]
    congr 2
    funext t
    rcases hpolicy : policy.forImageType t with _ | f
    · -- Tags of a type that is not filtered are all retained.
      have hretained : ∀ tag ∈ tagsOfType names t, Retains policy now names tag.tag := by
        intro tag htag
        obtain ⟨⟨name, hname, rfl⟩, rfl⟩ := mem_tagsOfType.1 htag
        rw [fromStr_tag (hne name hname), Retains, hpolicy]
        simp [RSPImageTagCollection.Accepts]
      simpa [RSPImageTagCollection.Accepts] using hretained
    · have hlist := hc t (by simp [hpolicy])
      rw [hlist, ← hpolicy, ← hlist, List.map_map, List.filter_map]
      congr 1
      refine List.filter_congr fun tag htag ↦ ?_
      have hmem : view tag ∈ tagsOfType names t := hlist ▸ List.mem_map_of_mem htag
      obtain ⟨⟨name, hname, hview⟩, htype⟩ := mem_tagsOfType.1 hmem
      have hsame : RSPImageTag.fromStr (view tag).tag = view tag := by
        rw [← hview, fromStr_tag (hne name hname)]
      simp [Retains, hsame, htype, hlist]
  · rw [if_neg hrange, if_neg (show ¬ DatesInRange policy now from hrange)]
    rfl

variable (policy now) in
/-- The collection of tags with these names, filtered. -/
theorem fromTagNames_filter (title : String → String) (hne : ∀ name ∈ names, name ≠ "") :
    ((RSPImageTagCollection.fromTagNames title names).bind fun c ↦
      c.filter id policy now true false).map (List.map RSPImageTag.tag) =
      if DatesInRange policy now then some (prunable policy now names) else none := by
  have hparse : (names.mapM fun name ↦ if name ∈ ([] : List String) then
      RSPImageTag.alias title name else some (RSPImageTag.fromStr name)) =
      some (names.map RSPImageTag.fromStr) := by
    simp only [List.not_mem_nil, if_false]
    exact List.mapM_pure
  rw [RSPImageTagCollection.fromTagNames, hparse]
  simp only [Option.bind_eq_bind, Option.bind_some, true_or, decide_true, List.filter_true,
    RSPImageTagCollection.init_eq]
  exact filter_prunable policy now _ hne fun t _ ↦ List.map_id _

/-! ### Deleting from a registry -/

namespace Registry

variable {reg : Registry} {name : String}

omit [Ord Version] in
theorem tagged_deleteImage (reg : Registry) (name digest : String) :
    (reg.deleteImage name digest).tagged name =
      (reg.tagged name).filter fun p ↦ p.2 ≠ digest := by
  induction reg with
  | nil => rfl
  | cons image reg ih =>
    have hcons : ∀ (image : RegistryImage) (reg : Registry), Registry.tagged (image :: reg) name =
        (if image.name = name then image.tags.map fun tag ↦ (tag, image.digest) else []) ++
          reg.tagged name := by
      intro image reg
      by_cases hname : image.name = name <;> simp [tagged, hname]
    rw [hcons, List.filter_append, ← ih]
    by_cases hname : image.name = name
    · by_cases hdigest : image.digest = digest
      · simp [deleteImage, hname, hdigest]
      · rw [deleteImage, List.filter_cons_of_pos (by simp [hdigest]), hcons]
        simp [hname, hdigest, deleteImage, List.filter_map, Function.comp_def]
    · rw [deleteImage, List.filter_cons_of_pos (by simp [hname]), hcons]
      simp [hname, deleteImage]

omit [Ord Version] in
theorem WellFormed.deleteImage (h : reg.WellFormed name) (digest : String) :
    (reg.deleteImage name digest).WellFormed name := by
  constructor
  · rw [tagged_deleteImage]
    exact h.tags_nodup.sublist (List.filter_sublist.map _)
  · rw [tagged_deleteImage]
    exact fun p hp ↦ h.tag_ne p (List.mem_of_mem_filter hp)

omit [Ord Version] in
/-- After a deletion the registry no longer knows the tags of the digest, and others as before. -/
theorem WellFormed.getImageDigest_deleteImage (h : reg.WellFormed name) (digest tag : String) :
    (reg.deleteImage name digest).getImageDigest name tag =
      if reg.getImageDigest name tag = some digest then none else reg.getImageDigest name tag := by
  rw [getImageDigest, getImageDigest, tagged_deleteImage]
  have hnodup := h.tags_nodup
  generalize reg.tagged name = l at hnodup ⊢
  induction l with
  | nil => simp
  | cons p l ih =>
    obtain ⟨tag', digest'⟩ := p
    obtain ⟨hnew, hnodup⟩ := List.nodup_cons.1 hnodup
    rcases eq_or_ne tag tag' with rfl | htag
    · by_cases hdigest : digest' = digest
      · have hgone : (l.filter fun p ↦ p.2 ≠ digest).lookup tag = none := by
          refine List.lookup_eq_none_iff.2 fun p hp ↦ ?_
          have hmem := List.mem_map_of_mem (f := Prod.fst) (List.mem_of_mem_filter hp)
          simpa using fun heq : tag = p.1 ↦ hnew (heq ▸ hmem)
        rw [List.filter_cons_of_neg (by simpa using hdigest), hgone]
        simp [hdigest]
      · simp [hdigest]
    · have hbeq : (tag == tag') = false := by simpa using htag
      by_cases hdigest : digest' = digest
      · simpa [List.lookup_cons, hbeq, hdigest] using ih hnodup
      · simpa [List.lookup_cons, hbeq, hdigest] using ih hnodup

omit [Ord Version] in
theorem WellFormed.getImageDigest_of_mem (h : reg.WellFormed name) {p : String × String}
    (hp : p ∈ reg.tagged name) : reg.getImageDigest name p.1 = some p.2 := by
  obtain ⟨l₁, l₂, hsplit⟩ := List.append_of_mem hp
  refine List.lookup_eq_some_iff.2 ⟨l₁, l₂, hsplit, fun q hq ↦ ?_⟩
  have hnodup := h.tags_nodup
  rw [hsplit, List.map_append, List.map_cons, List.nodup_append] at hnodup
  have hne := hnodup.2.2 q.1 (List.mem_map_of_mem hq) p.1 List.mem_cons_self
  simpa using hne.symm

omit [Ord Version] in
theorem WellFormed.ne_of_mem_names (hreg : reg.WellFormed name) :
    ∀ tag ∈ (reg.tagged name).map Prod.fst, tag ≠ "" := by
  intro tag htag
  obtain ⟨p, hp, rfl⟩ := List.mem_map.1 htag
  exact hreg.tag_ne p hp

omit [Ord Version] in
/-- The names tagged are those that the registry finds a digest for. -/
theorem WellFormed.mem_names_iff (hreg : reg.WellFormed name) (tag : String) :
    tag ∈ (reg.tagged name).map Prod.fst ↔ (reg.getImageDigest name tag).isSome := by
  constructor
  · intro htag
    obtain ⟨p, hp, rfl⟩ := List.mem_map.1 htag
    simp [hreg.getImageDigest_of_mem hp]
  · intro hsome
    obtain ⟨digest, hdigest⟩ := Option.isSome_iff_exists.1 hsome
    obtain ⟨l₁, l₂, hsplit, -⟩ := List.lookup_eq_some_iff.1 hdigest
    exact List.mem_map_of_mem (f := Prod.fst) (a := (tag, digest)) (by simp [hsplit])

end Registry

/-! ### The Docker API -/

namespace DockerImagesManager

omit [Ord Version] in
/-- **What the deletion loop reaches**: the digests of a prefix of the tags in which no digest is
repeated. `digestOf` is the registry before the first deletion. -/
theorem mem_deleteTagged {name : String} {digestOf : String → Option String} {d : String}
    (tags : List String) : ∀ (reg : Registry) (deleted : List String), reg.WellFormed name →
    (∀ tag ∈ tags, (digestOf tag).isSome) →
    (∀ tag, reg.getImageDigest name tag =
      if ∃ e ∈ deleted, digestOf tag = some e then none else digestOf tag) →
    (d ∈ (deleteTagged name tags reg deleted).deleted ↔ d ∈ deleted ∨
      ∃ pre, pre <+: tags ∧ (pre.map digestOf).Nodup ∧ (∀ e ∈ deleted, some e ∉ pre.map digestOf) ∧
        some d ∈ pre.map digestOf) := by
  induction tags with
  | nil =>
    intro reg deleted _ _ _
    simp [deleteTagged]
  | cons tag tags ih =>
    intro reg deleted hreg hsome hlookup
    obtain ⟨e, he⟩ := Option.isSome_iff_exists.1 (hsome tag List.mem_cons_self)
    by_cases hdeleted : e ∈ deleted
    · -- The tag went with an earlier digest, and the registry reports an error for it.
      have hgone : reg.getImageDigest name tag = none := by
        rw [hlookup, if_pos ⟨e, hdeleted, he⟩]
      rw [deleteTagged, hgone]
      constructor
      · exact Or.inl
      · rintro (hd | ⟨pre, hpre, -, hfresh, hd⟩)
        · exact hd
        · rcases List.prefix_cons_iff.1 hpre with rfl | ⟨pre, rfl, -⟩
          · simp at hd
          · exact absurd (by simp [he]) (hfresh e hdeleted)
    · have hfound : reg.getImageDigest name tag = some e := by
        rw [hlookup, if_neg, he]
        rintro ⟨e', he', heq⟩
        rw [he] at heq
        exact hdeleted (Option.some.inj heq ▸ he')
      have hstep : deleteTagged name (tag :: tags) reg deleted =
          deleteTagged name tags (reg.deleteImage name e) (deleted ++ [e]) := by
        rw [deleteTagged, hfound]
        exact if_neg hdeleted
      rw [hstep, ih _ _ (hreg.deleteImage e) fun t ht ↦ hsome t (List.mem_cons_of_mem _ ht)]
      · constructor
        · rintro (hd | ⟨pre, hpre, hnodup, hfresh, hd⟩)
          · rcases List.mem_append.1 hd with hd | hd
            · exact Or.inl hd
            · obtain rfl := List.mem_singleton.1 hd
              refine Or.inr ⟨[tag], by simp, by simp, ?_, by simp [he]⟩
              rintro e' he' hmem
              obtain rfl : e' = d := by simpa [he] using hmem
              exact hdeleted he'
          · have hnew : some e ∉ pre.map digestOf := hfresh e (by simp)
            refine Or.inr ⟨tag :: pre, by simpa using hpre, ?_, ?_, List.mem_cons_of_mem _ hd⟩
            · exact List.nodup_cons.2 ⟨by simpa only [he] using hnew, hnodup⟩
            · intro e' he' hmem
              rcases List.mem_cons.1 hmem with heq | hmem
              · rw [he] at heq
                exact hdeleted (Option.some.inj heq ▸ he')
              · exact hfresh e' (List.mem_append_left _ he') hmem
        · rintro (hd | ⟨pre, hpre, hnodup, hfresh, hd⟩)
          · exact Or.inl (List.mem_append_left _ hd)
          · rcases List.prefix_cons_iff.1 hpre with rfl | ⟨pre, rfl, hrest⟩
            · simp at hd
            · obtain ⟨hnew, hnodup⟩ := List.nodup_cons.1 hnodup
              rcases List.mem_cons.1 hd with heq | hd
              · rw [he] at heq
                exact Or.inl (by simp [Option.some.inj heq])
              · refine Or.inr ⟨pre, hrest, hnodup, fun e' he' hmem ↦ ?_, hd⟩
                rcases List.mem_append.1 he' with he' | he'
                · exact hfresh e' he' (List.mem_cons_of_mem _ hmem)
                · obtain rfl := List.mem_singleton.1 he'
                  exact hnew (he ▸ hmem)
      · intro t
        rw [hreg.getImageDigest_deleteImage, hlookup]
        by_cases hold : ∃ e ∈ deleted, digestOf t = some e
        · have hnew : ∃ e' ∈ deleted ++ [e], digestOf t = some e' :=
            hold.imp fun e' h ↦ ⟨List.mem_append_left _ h.1, h.2⟩
          rw [if_pos hold, if_pos hnew]
          simp
        · rw [if_neg hold]
          by_cases heq : digestOf t = some e
          · rw [if_pos heq, if_pos ⟨e, by simp, heq⟩]
          · rw [if_neg heq, if_neg]
            rintro ⟨e', he', ht⟩
            rcases List.mem_append.1 he' with he' | he'
            · exact hold ⟨e', he', ht⟩
            · exact heq (List.mem_singleton.1 he' ▸ ht)

variable (order : SetOrder) (title : String → String) {reg : Registry} {name : String}

omit [Ord Version] in
/-- The names that the registry lists. -/
theorem mem_listed {tag : String} :
    tag ∈ order.toList (reg.listTags name) ↔ tag ∈ (reg.tagged name).map Prod.fst := by
  simp [order.mem_toList, Registry.listTags]

/-- **What a run does**, when the registry is well formed. -/
theorem pruneImages_eq (hreg : reg.WellFormed name) (policy : ImageFilterPolicy) (now : Datetime)
    (dryRun : Bool) : pruneImages order title name policy now dryRun reg =
      let tags := prunable policy now (order.toList (reg.listTags name))
      let run := deleteTagged name tags reg []
      if DatesInRange policy now then
        if dryRun then ⟨[], .ok tags⟩ else ⟨run.deleted, run.result.map fun _ ↦ tags⟩
      else ⟨[], .error .overflowError⟩ := by
  have hne : ∀ tag ∈ order.toList (reg.listTags name), tag ≠ "" :=
    fun tag htag ↦ hreg.ne_of_mem_names tag ((mem_listed order).1 htag)
  have hfilter := fromTagNames_filter policy now title hne
  rw [pruneImages]
  by_cases hrange : DatesInRange policy now
  · rw [if_pos hrange] at hfilter
    obtain ⟨toDelete, hsome, htags⟩ := Option.map_eq_some_iff.1 hfilter
    simp only [hsome, htags, if_pos hrange]
  · rw [if_neg hrange, Option.map_eq_none_iff] at hfilter
    simp only [hfilter, if_neg hrange]

end DockerImagesManager

/-! ### Google Artifact Registry -/

namespace GARImagesManager

variable (order : SetOrder) (title : String → String) {registry path name : String} {reg : Registry}

omit [Ord Version] in
/-- Cutting a list into batches loses nothing. -/
theorem batched_flatten (size : ℕ) (batch names : List String) :
    (batched size batch names).flatten = batch ++ names := by
  induction names generalizing batch with
  | nil =>
    rw [batched]
    split
    · next hbatch => simp [hbatch]
    · simp
  | cons name names ih =>
    rw [batched]
    split
    · rw [List.flatten_cons, ih]
      simp
    · rw [ih]
      simp

omit [Ord Version] in
/-- The images fetched are those tagged, in the same order. -/
theorem fetchImageList_tagged (hreg : reg.WellFormed name) :
    (fetchImageList registry path name reg).map (fun image ↦ (image.tag, image.digest)) =
      reg.tagged name ∧
    ∀ image ∈ fetchImageList registry path name reg, RSPImageCollection.FromTag image ∧
      image.toRSPImageTag = .fromStr image.tag := by
  have hparse : ∀ image ∈ reg.filter (fun image ↦ image.name = name), ∀ tag ∈ image.tags,
      (RSPImageTag.fromStr tag).tag = tag := by
    intro image himage tag htag
    refine fromStr_tag (hreg.tag_ne (tag, image.digest) ?_)
    exact List.mem_flatMap.2 ⟨image, himage, List.mem_map_of_mem htag⟩
  constructor
  · rw [fetchImageList, List.map_flatMap, Registry.tagged]
    refine List.flatMap_congr fun image himage ↦ ?_
    rw [List.map_map]
    refine List.map_congr_left fun tag htag ↦ ?_
    show ((RSPImageTag.fromStr tag).tag, image.digest) = (tag, image.digest)
    rw [hparse image himage tag htag]
  · intro image himage
    obtain ⟨source, hsource, himage⟩ := List.mem_flatMap.1 himage
    obtain ⟨tag, htag, rfl⟩ := List.mem_map.1 himage
    refine ⟨⟨_, _, _, _, _, rfl⟩, ?_⟩
    show RSPImageTag.fromStr tag = RSPImageTag.fromStr (RSPImageTag.fromStr tag).tag
    rw [hparse source hsource tag htag]

/-- **The image collection lists the tags as they are** under every type that is filtered: resolving
aliases changes images of other types only. -/
theorem listImages_spec (hreg : reg.WellFormed name) :
    ∃ c, listImages order title registry path name reg = .ok c ∧
      (∀ t, t.isAliasType = false → (c.collection.byType t).map c.view =
        tagsOfType ((reg.tagged name).map Prod.fst) t) ∧
      ∀ t, ∀ i ∈ c.collection.byType t, ((c.images i).tag, (c.images i).digest) ∈ reg.tagged name := by
  rw [listImages]
  obtain ⟨htagged, himages⟩ : _ ∧ ∀ image ∈ fetchImageList registry path name reg, _ :=
    fetchImageList_tagged hreg
  generalize fetchImageList registry path name reg = images at htagged himages ⊢
  have hnames : images.map (fun image ↦ image.tag) = (reg.tagged name).map Prod.fst := by
    rw [← htagged, List.map_map]
    rfl
  have hpool : Pool (Heap.ofList images) :=
    RSPImageCollection.pool_ofList (fun image h ↦ (himages image h).1) (hnames ▸ hreg.tags_nodup)
  obtain ⟨c, hinit, htracks, hcollection⟩ := RSPImageCollection.init_spec order title hpool
    (List.range images.length) (fun i hi ↦ List.mem_range.1 hi) List.nodup_range none
  have hconsistent := htracks.consistent
  refine ⟨c, hinit, fun t ht ↦ ?_, fun t i hi ↦ ?_⟩
  · have hkept : ∀ i, (Heap.ofList images i).imageType = t ∨ (c.view i).imageType = t →
        c.view i = (Heap.ofList images i).toRSPImageTag := by
      intro i htype
      have hfixed := ((hconsistent.evolves i).fixed)
      rcases htype with htype | htype
      · exact (hfixed (by rw [RSPImage.isPossibleAlias, htype, ht])).1
      · refine (hfixed ?_).1
        rw [← hconsistent.possible, RSPImage.isPossibleAlias]
        exact htype ▸ ht
    have hparsed : ((reg.tagged name).map Prod.fst).map RSPImageTag.fromStr =
        (List.range images.length).map fun i ↦ (Heap.ofList images i).toRSPImageTag := by
      have hlist := congrArg (List.map RSPImage.toRSPImageTag) (Heap.map_ofList images)
      rw [List.map_map] at hlist
      rw [← hnames, List.map_map]
      exact (List.map_congr_left fun image h ↦ (himages image h).2.symm).trans hlist.symm
    rw [RSPImageTagCollection.init_eq] at hcollection
    rw [← Option.some.inj hcollection, tagsOfType, hparsed, List.filter_map]
    show (RSPImageTagCollection.sorted c.view _).map c.view = _
    rw [RSPImageTagCollection.map_sorted]
    congr 1
    simp only [true_or, decide_true, List.filter_true]
    rw [List.filter_congr (q := fun i ↦ decide ((Heap.ofList images i).imageType = t))]
    · exact List.map_congr_left fun i hi ↦ hkept i (Or.inl (by simpa using (List.mem_filter.1 hi).2))
    · intro i _
      refine decide_eq_decide.2 ⟨fun h ↦ ?_, fun h ↦ ?_⟩
      · rw [← hkept i (Or.inr h), h]
      · rw [hkept i (Or.inl h), h]
  · have hmem := (htracks.indexed.mem_byType.1 hi).1
    have hlt : i < images.length := by simpa using List.mem_of_mem_filter hmem
    rw [hconsistent.tag, hconsistent.digest, Heap.ofList_of_lt hlt, ← htagged]
    exact List.mem_map_of_mem (List.getElem_mem hlt)

/-- **What a run does**, when the registry is well formed: the digests deleted are those of the names
to prune. -/
theorem pruneImages_spec (hreg : reg.WellFormed name) (policy : ImageFilterPolicy)
    (now : Datetime) :
    let tags := prunable policy now ((reg.tagged name).map Prod.fst)
    ∃ digests : List String,
      (DatesInRange policy now → digests.map some = tags.map (reg.getImageDigest name)) ∧
      ∀ dryRun, pruneImages order title registry path name policy now dryRun reg =
        if DatesInRange policy now then ⟨if dryRun then [] else digests, .ok tags⟩
        else ⟨[], .error .overflowError⟩ := by
  obtain ⟨c, hlist, hbyType, hmem⟩ : ∃ c, listImages order title registry path name reg = .ok c ∧ _ :=
    listImages_spec order title hreg
  have hfilter := filter_prunable policy now c.collection hreg.ne_of_mem_names
    fun t ht ↦ hbyType t (by cases t <;> simp_all [ImageFilterPolicy.forImageType] <;> rfl)
  by_cases hrange : DatesInRange policy now
  · rw [if_pos hrange] at hfilter
    obtain ⟨toDelete, hsome, htags⟩ := Option.map_eq_some_iff.1 hfilter
    refine ⟨toDelete.map fun i ↦ (c.images i).digest, fun _ ↦ ?_, fun dryRun ↦ ?_⟩
    · rw [← htags, List.map_map, List.map_map]
      refine List.map_congr_left fun i hi ↦ ?_
      have hlisted : ∃ t, i ∈ c.collection.byType t := by
        rw [RSPImageTagCollection.filter_inverted] at hsome
        split at hsome
        · obtain rfl := Option.some.inj hsome
          obtain ⟨t, -, hi⟩ := List.mem_flatMap.1 hi
          exact ⟨t, List.mem_of_mem_filter hi⟩
        · cases hsome
      obtain ⟨t, ht⟩ := hlisted
      exact (hreg.getImageDigest_of_mem (hmem t i ht)).symm
    · rw [pruneImages, hlist]
      simp only [RSPImageCollection.filter, hsome, if_pos hrange, deleteImages, batched_flatten,
        List.nil_append]
      rw [← htags]
      rfl
  · rw [if_neg hrange, Option.map_eq_none_iff] at hfilter
    refine ⟨[], fun h ↦ absurd h hrange, fun dryRun ↦ ?_⟩
    rw [pruneImages, hlist]
    simp only [RSPImageCollection.filter, hfilter, if_neg hrange]

end GARImagesManager

/-! ### Safety -/

/-- Whether a run takes no retained tag's image: a tag that points to a digest deleted is one of the
tags that pruning lists. -/
def PrunesSafely (run : Bool → PruneRun) (digestOf : String → Option String) : Prop :=
  ∀ tags, (run true).result = .ok tags → ∀ digest ∈ (run false).deleted, ∀ tag,
    digestOf tag = some digest → tag ∈ tags

variable (policy now) in
/-- Safety of a run that lists the names to prune and deletes the digests of the names in `T`. -/
theorem prunesSafely_iff {run : Bool → PruneRun} {digestOf : String → Option String}
    {T : String → Prop} (hne : ∀ name ∈ names, name ≠ "")
    (hnames : ∀ name, name ∈ names ↔ (digestOf name).isSome)
    (hresult : (run true).result =
      if DatesInRange policy now then .ok (prunable policy now names) else .error .overflowError)
    (hdeleted : ∀ digest, digest ∈ (run false).deleted ↔
      DatesInRange policy now ∧ ∃ t, T t ∧ digestOf t = some digest) :
    PrunesSafely run digestOf ↔ (DatesInRange policy now → ∀ t, T t → ∀ u ∈ names,
      digestOf u = digestOf t → ¬ Retains policy now names u) := by
  constructor
  · intro hsafe hrange t ht u hu hsame
    obtain ⟨digest, hdigest⟩ := Option.isSome_iff_exists.1 ((hnames u).1 hu)
    rw [if_pos hrange] at hresult
    have hmem := hsafe _ hresult digest ((hdeleted digest).2 ⟨hrange, t, ht, hsame ▸ hdigest⟩) u
      hdigest
    exact ((mem_prunable hne).1 hmem).2
  · intro hcond tags htags digest hdigest u hu
    obtain ⟨hrange, t, ht, htdigest⟩ := (hdeleted digest).1 hdigest
    rw [hresult, if_pos hrange] at htags
    obtain rfl := Except.ok.inj htags
    have hmem : u ∈ names := (hnames u).2 (by simp [hu])
    exact (mem_prunable hne).2 ⟨hmem, hcond hrange t ht u hmem (hu.trans htdigest.symm)⟩

variable (order : SetOrder) (title : String → String) {reg : Registry} {registry path name : String}

/-- Safety with the Docker API. -/
theorem DockerImagesManager.prunesSafely_iff (hreg : reg.WellFormed name)
    (policy : ImageFilterPolicy) (now : Datetime) :
    let names := order.toList (reg.listTags name)
    PrunesSafely (fun dryRun ↦ pruneImages order title name policy now dryRun reg)
        (reg.getImageDigest name) ↔
      (DatesInRange policy now → ∀ pre, pre <+: prunable policy now names →
        (pre.map (reg.getImageDigest name)).Nodup → ∀ t ∈ pre, ∀ u ∈ names,
          reg.getImageDigest name u = reg.getImageDigest name t → ¬ Retains policy now names u) := by
  intro names
  have hne : ∀ tag ∈ names, tag ≠ "" :=
    fun tag htag ↦ hreg.ne_of_mem_names tag ((mem_listed order).1 htag)
  have hnames : ∀ tag, tag ∈ names ↔ (reg.getImageDigest name tag).isSome :=
    fun tag ↦ (mem_listed order).trans (hreg.mem_names_iff tag)
  rw [Images.prunesSafely_iff policy now (T := fun t ↦ ∃ pre, pre <+: prunable policy now names ∧
    (pre.map (reg.getImageDigest name)).Nodup ∧ t ∈ pre) hne hnames]
  · constructor
    · intro h hrange pre hpre hnodup t ht
      exact h hrange t ⟨pre, hpre, hnodup, ht⟩
    · rintro h hrange t ⟨pre, hpre, hnodup, ht⟩
      exact h hrange pre hpre hnodup t ht
  · rw [pruneImages_eq order title hreg]
    dsimp only
    split <;> rfl
  · intro digest
    rw [pruneImages_eq order title hreg]
    by_cases hrange : DatesInRange policy now
    · simp only [if_pos hrange, Bool.false_eq_true, if_false]
      rw [and_iff_right hrange, mem_deleteTagged _ _ _ hreg]
      · simp only [List.not_mem_nil, false_or, false_imp_iff, implies_true, true_and, List.mem_map]
        constructor
        · rintro ⟨pre, hpre, hnodup, t, ht, hdigest⟩
          exact ⟨t, ⟨pre, hpre, hnodup, ht⟩, hdigest⟩
        · rintro ⟨t, ⟨pre, hpre, hnodup, ht⟩, hdigest⟩
          exact ⟨pre, hpre, hnodup, t, ht, hdigest⟩
      · exact fun tag htag ↦ (hnames tag).1 ((mem_prunable hne).1 htag).1
      · simp
    · simp [hrange]

/-- Safety with Artifact Registry. -/
theorem GARImagesManager.prunesSafely_iff (hreg : reg.WellFormed name)
    (policy : ImageFilterPolicy) (now : Datetime) :
    let names := (reg.tagged name).map Prod.fst
    PrunesSafely (fun dryRun ↦ pruneImages order title registry path name policy now dryRun reg)
        (reg.getImageDigest name) ↔
      (DatesInRange policy now → ∀ t ∈ names, ¬ Retains policy now names t → ∀ u ∈ names,
        reg.getImageDigest name u = reg.getImageDigest name t → ¬ Retains policy now names u) := by
  intro names
  obtain ⟨digests, hdigests, hrun⟩ := pruneImages_spec order title hreg policy now
  rw [Images.prunesSafely_iff policy now (T := fun t ↦ t ∈ prunable policy now names)
    hreg.ne_of_mem_names hreg.mem_names_iff]
  · simp only [names, mem_prunable hreg.ne_of_mem_names, and_imp]
  · rw [hrun]
    split <;> rfl
  · intro digest
    rw [hrun]
    by_cases hrange : DatesInRange policy now
    · have hmem : digest ∈ digests ↔ some digest ∈ digests.map some := by simp
      simp only [if_pos hrange, Bool.false_eq_true, if_false]
      rw [and_iff_right hrange, hmem, hdigests hrange, List.mem_map]
    · simp [hrange]

variable (registry path) in
/-- **When pruning takes no retained tag's image**: no rejected tag whose deletion is attempted shares
its digest with a retained tag. -/
theorem prune_safe_iff (hreg : reg.WellFormed name) (policy : ImageFilterPolicy) (now : Datetime) :
    (PrunesSafely
        (fun dryRun ↦ DockerImagesManager.pruneImages order title name policy now dryRun reg)
        (reg.getImageDigest name) ↔
      let names := order.toList (reg.listTags name)
      (DatesInRange policy now → ∀ pre, pre <+: prunable policy now names →
        (pre.map (reg.getImageDigest name)).Nodup → ∀ t ∈ pre, ∀ u ∈ names,
          reg.getImageDigest name u = reg.getImageDigest name t → ¬ Retains policy now names u)) ∧
    (PrunesSafely
        (fun dryRun ↦
          GARImagesManager.pruneImages order title registry path name policy now dryRun reg)
        (reg.getImageDigest name) ↔
      let names := (reg.tagged name).map Prod.fst
      (DatesInRange policy now → ∀ t ∈ names, ¬ Retains policy now names t → ∀ u ∈ names,
        reg.getImageDigest name u = reg.getImageDigest name t → ¬ Retains policy now names u)) :=
  ⟨DockerImagesManager.prunesSafely_iff order title hreg policy now,
    GARImagesManager.prunesSafely_iff order title hreg policy now⟩

end Runs

section Sample

local instance : Ord Version := semverPrecedence

/-- Keep one weekly image. -/
def latestWeekly : ImageFilterPolicy := { weekly := { number := some 1 } }

/-- Two weekly images, of which the first has `tags` too. -/
def sampleRegistry (tags : List String) : Registry :=
  [⟨"sciplat-lab", "sha256:1", tags ++ ["w_2021_21"], none⟩,
    ⟨"sciplat-lab", "sha256:2", ["w_2021_22"], none⟩]

/-- The names that both managers see. -/
theorem toList_listTags {reg : Registry} {name : String}
    (hnodup : ((reg.tagged name).map Prod.fst).Nodup)
    (hsorted : ((reg.tagged name).map Prod.fst).Pairwise (· ≤ ·)) :
    RSPImageCollection.alphabetical.toList (reg.listTags name) = (reg.tagged name).map Prod.fst :=
  (List.toFinset_sort _ hnodup).2 hsorted

/-- Images that share no digest are pruned safely. -/
theorem prune_safe_sample :
    (sampleRegistry []).WellFormed "sciplat-lab" ∧
    PrunesSafely (fun dryRun ↦ DockerImagesManager.pruneImages RSPImageCollection.alphabetical id
      "sciplat-lab" latestWeekly 0 dryRun (sampleRegistry []))
      ((sampleRegistry []).getImageDigest "sciplat-lab") ∧
    PrunesSafely (fun dryRun ↦ GARImagesManager.pruneImages RSPImageCollection.alphabetical id
      "us-docker.pkg.dev" "path" "sciplat-lab" latestWeekly 0 dryRun (sampleRegistry []))
      ((sampleRegistry []).getImageDigest "sciplat-lab") := by
  have hreg : (sampleRegistry []).WellFormed "sciplat-lab" :=
    ⟨by decide +kernel, by decide +kernel⟩
  have hsafe := prune_safe_iff RSPImageCollection.alphabetical id "us-docker.pkg.dev" "path" hreg
    latestWeekly 0
  refine ⟨hreg, hsafe.1.2 fun _ pre hpre _ t ht u hu ↦ ?_, hsafe.2.2 ?_⟩
  · rw [toList_listTags (by decide +kernel) (by decide +kernel)] at hpre hu ⊢
    have hall : ∀ t ∈ prunable latestWeekly 0 (((sampleRegistry []).tagged "sciplat-lab").map
        Prod.fst), ∀ u ∈ ((sampleRegistry []).tagged "sciplat-lab").map Prod.fst,
        (sampleRegistry []).getImageDigest "sciplat-lab" u =
          (sampleRegistry []).getImageDigest "sciplat-lab" t →
        ¬ Retains latestWeekly 0 (((sampleRegistry []).tagged "sciplat-lab").map Prod.fst) u := by
      decide +kernel
    exact hall t (hpre.subset ht) u hu
  · decide +kernel

/-- **Pruning takes a retained tag's image**: the older weekly image is also the recommended one. -/
theorem prune_takes_retained :
    (sampleRegistry ["recommended"]).WellFormed "sciplat-lab" ∧
    ¬ PrunesSafely (fun dryRun ↦ DockerImagesManager.pruneImages RSPImageCollection.alphabetical id
      "sciplat-lab" latestWeekly 0 dryRun (sampleRegistry ["recommended"]))
      ((sampleRegistry ["recommended"]).getImageDigest "sciplat-lab") ∧
    ¬ PrunesSafely (fun dryRun ↦ GARImagesManager.pruneImages RSPImageCollection.alphabetical id
      "us-docker.pkg.dev" "path" "sciplat-lab" latestWeekly 0 dryRun
      (sampleRegistry ["recommended"]))
      ((sampleRegistry ["recommended"]).getImageDigest "sciplat-lab") := by
  have hreg : (sampleRegistry ["recommended"]).WellFormed "sciplat-lab" :=
    ⟨by decide +kernel, by decide +kernel⟩
  refine ⟨hreg, fun hsafe ↦ ?_, fun hsafe ↦ ?_⟩
  · have hcond := (DockerImagesManager.prunesSafely_iff _ _ hreg latestWeekly 0).1 hsafe
    rw [toList_listTags (by decide +kernel) (by decide +kernel)] at hcond
    exact hcond (by decide +kernel) ["w_2021_21"] (by decide +kernel) (by decide +kernel)
      "w_2021_21" (by decide +kernel) "recommended" (by decide +kernel) (by decide +kernel)
      (by decide +kernel)
  · have hcond := (GARImagesManager.prunesSafely_iff _ _ hreg latestWeekly 0).1 hsafe
    exact hcond (by decide +kernel) "w_2021_21" (by decide +kernel) (by decide +kernel)
      "recommended" (by decide +kernel) (by decide +kernel) (by decide +kernel)

end Sample

end Nublado.Images
