import Nublado.Images.Frame

/-!
# The index by digest

What holds of every collection, whatever images it was given and whoever else has changed them.

* `Reached` is any run of a collection: it is built, images are added to it, and other users of the
  images change them, though never their digests.
* `Covers` is the invariant: what is found under a digest is listed and has the digest, and every image
  that is listed has its digest in the index.
* `init_of_distinct`: images of which no two have the same digest are indexed without being changed.
-/

namespace Nublado.Images

namespace RSPImageTagCollection

variable {T : Type} {view : T → RSPImageTag} {c c' : RSPImageTagCollection T} {tag x : T}

/-- What adding a member lists, wherever the others are listed. -/
theorem mem_byType_of_add [Ord Version] (h : add view c tag = some c') :
    (∃ t, x ∈ c'.byType t) ↔ (∃ t, x ∈ c.byType t) ∨ x = tag := by
  obtain ⟨tags, hsort, rfl⟩ := Option.map_eq_some_iff.1 h
  have htags : ∀ y, y ∈ tags ↔ y ∈ c.byType (view tag).imageType ∨ y = tag := by
    intro y
    rw [sortReverse] at hsort
    split at hsort
    · obtain rfl := Option.some.inj hsort
      simp [insert]
    · cases hsort
  constructor
  · rintro ⟨t, ht⟩
    rcases eq_or_ne t (view tag).imageType with rfl | hne
    · rcases (htags x).1 (by simpa using ht) with hx | hx
      · exact Or.inl ⟨_, hx⟩
      · exact Or.inr hx
    · exact Or.inl ⟨t, by simpa [insert, hne] using ht⟩
  · rintro (⟨t, ht⟩ | hx)
    · refine ⟨t, ?_⟩
      rcases eq_or_ne t (view tag).imageType with rfl | hne
      · simpa using (htags x).2 (Or.inl ht)
      · simpa [insert, hne] using ht
    · exact ⟨(view tag).imageType, by simpa using (htags x).2 (Or.inr hx)⟩

end RSPImageTagCollection

namespace RSPImageCollection

variable {c c' : RSPImageCollection} {order : SetOrder} {title : String → String} {i x : ℕ}

/-- All images of a collection are listed under some type. -/
theorem mem_allImages_iff : x ∈ c.allImages false false ↔ ∃ t, x ∈ c.collection.byType t := by
  simp [allImages, RSPImageTagCollection.allTags, RSPImageType.mem_all]

/-- **The index by digest covers the collection.** -/
structure Covers (c : RSPImageCollection) : Prop where
  filed : ∀ d x, c.byDigest d = some x → x ∈ c.allImages false false ∧ (c.images x).digest = d
  covered : ∀ x ∈ c.allImages false false, (c.byDigest (c.images x).digest).isSome

/-- One order of the digests of a collection. -/
def Covers.digests (h : Covers c) : c.Digests where
  toList := ((c.allImages false false).map fun x ↦ (c.images x).digest).dedup
  mem_toList d := by
    rw [List.mem_dedup, List.mem_map]
    constructor
    · rintro ⟨x, hx, rfl⟩
      exact h.covered x hx
    · intro hd
      obtain ⟨x, hx⟩ := Option.isSome_iff_exists.1 hd
      exact ⟨x, h.filed d x hx⟩
  nodup_toList := List.nodup_dedup _

/-! ### Indexing -/

/-- What a pass that was given the images `given` files, if it leaves `later` for later. -/
structure Files (given later : List ℕ) (c c' : RSPImageCollection) : Prop where
  keeps : Keeps c c'
  filed : ∀ d x, c'.byDigest d = some x →
    c.byDigest d = some x ∨ x ∈ given ∧ (c.images x).digest = d
  kept : ∀ d, (c.byDigest d).isSome → (c'.byDigest d).isSome
  covered : ∀ x ∈ given, x ∈ later ∨ (c'.byDigest (c.images x).digest).isSome

/-- An image that has its digest in the index, and the rest of a pass. -/
theorem Files.cons {given later : List ℕ} {c₁ : RSPImageCollection} (hkeeps : Keeps c c₁)
    (hfiled : ∀ d x, c₁.byDigest d = some x →
      c.byDigest d = some x ∨ x = i ∧ (c.images x).digest = d)
    (hsome : ∀ d, (c.byDigest d).isSome → (c₁.byDigest d).isSome)
    (hself : (c₁.byDigest (c.images i).digest).isSome) (h : Files given later c₁ c') :
    Files (i :: given) later c c' where
  keeps := hkeeps.trans h.keeps
  filed d x hx := by
    rcases h.filed d x hx with hx | ⟨hx, hd⟩
    · rcases hfiled d x hx with hx | ⟨rfl, hd⟩
      · exact Or.inl hx
      · exact Or.inr ⟨List.mem_cons_self, hd⟩
    · exact Or.inr ⟨List.mem_cons_of_mem _ hx, (hkeeps.digest x).symm.trans hd⟩
  kept d hd := h.kept d (hsome d hd)
  covered x hx := by
    rcases List.mem_cons.1 hx with rfl | hx
    · exact Or.inr (h.kept _ hself)
    · rw [← hkeeps.digest]
      exact h.covered x hx

/-- The first image of a digest is filed. -/
theorem Files.cons_first {given later : List ℕ} {c₁ : RSPImageCollection}
    (h : Files given later c₁ c') (himages : c₁.images = c.images)
    (hcollection : c₁.collection = c.collection)
    (hby : c₁.byDigest = Function.update c.byDigest (c.images i).digest (some i)) :
    Files (i :: given) later c c' := by
  refine h.cons ⟨fun k ↦ by rw [himages], fun k ↦ by rw [himages], fun k ↦ by rw [himages],
    hcollection⟩ (fun d x hx ↦ ?_) (fun d hd ↦ ?_) (by simp [hby])
  · rw [hby] at hx
    rcases eq_or_ne d (c.images i).digest with rfl | hne
    · rw [Function.update_self, Option.some.injEq] at hx
      exact Or.inr ⟨hx.symm, by rw [hx]⟩
    · exact Or.inl (by rwa [Function.update_of_ne hne] at hx)
  · rw [hby]
    rcases eq_or_ne d (c.images i).digest with rfl | hne
    · simp
    · rwa [Function.update_of_ne hne]

/-- An image that is resolved against the one found under its digest is covered by the index, whichever
of the two is the new one. -/
theorem Files.cons_resolved {given later : List ℕ} {c₁ : RSPImageCollection} {other : ℕ}
    (h : Files given later c₁ c') (hother : c.byDigest (c.images i).digest = some other)
    (hresolve : resolveDuplicate order title i other c = .ok c₁ ∨
      resolveDuplicate order title other i c = .ok c₁) : Files (i :: given) later c c' := by
  obtain ⟨new, hnew, hkeeps, hdigest, hby⟩ : ∃ new, (new = i ∨ new = other) ∧ Keeps c c₁ ∧
      (c.images new).digest = (c.images i).digest ∧ (c₁.byDigest = c.byDigest ∨
        c₁.byDigest = Function.update c.byDigest (c.images i).digest (some new)) := by
    rcases hresolve with hresolve | hresolve
    · obtain ⟨hkeeps, -, hby⟩ := resolveDuplicate_files hresolve
      refine ⟨i, Or.inl rfl, hkeeps, rfl, ?_⟩
      split at hby
      · exact Or.inl hby
      · exact Or.inr hby
    · obtain ⟨hkeeps, hdigest, hby⟩ := resolveDuplicate_files hresolve
      refine ⟨other, Or.inr rfl, hkeeps, hdigest, ?_⟩
      rw [hdigest] at hby
      split at hby
      · exact Or.inl hby
      · exact Or.inr hby
  have hlookup : ∀ d x, c₁.byDigest d = some x →
      c.byDigest d = some x ∨ x = new ∧ d = (c.images i).digest := by
    intro d x hx
    rcases hby with hby | hby
    · exact Or.inl (by rwa [hby] at hx)
    · rw [hby] at hx
      rcases eq_or_ne d (c.images i).digest with rfl | hne
      · rw [Function.update_self, Option.some.injEq] at hx
        exact Or.inr ⟨hx.symm, rfl⟩
      · exact Or.inl (by rwa [Function.update_of_ne hne] at hx)
  have hkept : ∀ d, (c.byDigest d).isSome → (c₁.byDigest d).isSome := by
    intro d hd
    rcases hby with hby | hby
    · rwa [hby]
    · rw [hby]
      rcases eq_or_ne d (c.images i).digest with rfl | hne
      · simp
      · rwa [Function.update_of_ne hne]
  refine .cons hkeeps (fun d x hx ↦ ?_) hkept (hkept _ (by simp [hother])) h
  rcases hlookup d x hx with hx | ⟨rfl, rfl⟩
  · exact Or.inl hx
  · rcases hnew with rfl | rfl
    · exact Or.inr ⟨rfl, rfl⟩
    · exact Or.inl hother

/-- **The first pass files the targets**, and leaves the others for later. -/
theorem firstPass_files (rest : List ℕ) : ∀ {c c' : RSPImageCollection} {later : List ℕ},
    firstPass order title rest c = .ok (later, c') →
    Files rest later c c' ∧ ∀ x ∈ later, x ∈ rest := by
  induction rest with
  | nil =>
    intro c c' later h
    cases h
    exact ⟨⟨.refl c, fun _ _ hx ↦ Or.inl hx, fun _ hd ↦ hd, by simp⟩, by simp⟩
  | cons i rest ih =>
    intro c c' later h
    rw [firstPass] at h
    split at h
    · obtain ⟨⟨later', c₁⟩, hrest, h⟩ := bind_eq_ok.1 h
      cases h
      obtain ⟨hfiles, hlater⟩ := ih hrest
      refine ⟨⟨hfiles.keeps, fun d x hx ↦ ?_, hfiles.kept, fun x hx ↦ ?_⟩, fun x hx ↦ ?_⟩
      · exact (hfiles.filed d x hx).imp_right fun hx ↦ ⟨List.mem_cons_of_mem _ hx.1, hx.2⟩
      · rcases List.mem_cons.1 hx with rfl | hx
        · exact Or.inl List.mem_cons_self
        · exact (hfiles.covered x hx).imp_left (List.mem_cons_of_mem _)
      · rcases List.mem_cons.1 hx with rfl | hx
        · exact List.mem_cons_self
        · exact List.mem_cons_of_mem _ (hlater x hx)
    · split at h
      · next other hother =>
        obtain ⟨c₁, hresolve, hrest⟩ := bind_eq_ok.1 h
        obtain ⟨hfiles, hlater⟩ := ih hrest
        exact ⟨hfiles.cons_resolved hother (Or.inr hresolve),
          fun x hx ↦ List.mem_cons_of_mem _ (hlater x hx)⟩
      · obtain ⟨hfiles, hlater⟩ := ih h
        exact ⟨hfiles.cons_first rfl rfl rfl, fun x hx ↦ List.mem_cons_of_mem _ (hlater x hx)⟩

/-- **The second pass files the possible aliases.** -/
theorem secondPass_files (rest : List ℕ) : ∀ {c c' : RSPImageCollection},
    secondPass order title rest c = .ok c' → Files rest [] c c' := by
  induction rest with
  | nil =>
    intro c c' h
    cases h
    exact ⟨.refl c, fun _ _ hx ↦ Or.inl hx, fun _ hd ↦ hd, by simp⟩
  | cons i rest ih =>
    intro c c' h
    rw [secondPass] at h
    split at h
    · next other hother =>
      obtain ⟨c₁, hresolve, hrest⟩ := bind_eq_ok.1 h
      exact (ih hrest).cons_resolved hother (Or.inl hresolve)
    · exact (ih h).cons_first rfl rfl rfl

/-! ### Images of distinct digests -/

/-- The images have distinct digests. -/
def DistinctDigests (c : RSPImageCollection) (l : List ℕ) : Prop :=
  l.Pairwise fun x y ↦ (c.images x).digest ≠ (c.images y).digest

/-- Filing one image leaves the other digests alone. -/
theorem update_digest_none {d : String} (hd : c.byDigest d = none)
    (hne : (c.images i).digest ≠ d) :
    Function.update c.byDigest (c.images i).digest (some i) d = none := by
  rw [Function.update_of_ne hne.symm, hd]

variable (order title)

/-- The first pass over images of digests that are new and distinct changes no image. -/
theorem firstPass_of_distinct (rest : List ℕ) : ∀ c : RSPImageCollection,
    DistinctDigests c rest → (∀ x ∈ rest, c.byDigest (c.images x).digest = none) →
    ∃ c', firstPass order title rest c =
        .ok (rest.filter fun x ↦ (c.images x).isPossibleAlias, c') ∧
      c'.images = c.images ∧ ∀ d, c.byDigest d = none →
        (∀ x ∈ rest, (c.images x).isPossibleAlias = false → (c.images x).digest ≠ d) →
        c'.byDigest d = none := by
  induction rest with
  | nil => exact fun c _ _ ↦ ⟨c, rfl, rfl, fun _ h _ ↦ h⟩
  | cons i rest ih =>
    intro c hdistinct hnew
    obtain ⟨hi, hdistinct⟩ := List.pairwise_cons.1 hdistinct
    rcases hpossible : (c.images i).isPossibleAlias with _ | _
    · obtain ⟨c', hok, himages, hnone⟩ := ih (c.setByDigest (c.images i).digest i) hdistinct
        fun x hx ↦ update_digest_none (hnew x (List.mem_cons_of_mem _ hx)) (hi x hx)
      refine ⟨c', ?_, himages, fun d hd hother ↦ ?_⟩
      · rw [List.filter_cons_of_neg (by simp [hpossible])]
        simp only [firstPass, hpossible, hnew i List.mem_cons_self]
        exact hok
      · exact hnone d (update_digest_none hd (hother i List.mem_cons_self hpossible)) fun x hx ↦
          hother x (List.mem_cons_of_mem _ hx)
    · obtain ⟨c', hok, himages, hnone⟩ := ih c hdistinct fun x hx ↦
        hnew x (List.mem_cons_of_mem _ hx)
      refine ⟨c', ?_, himages, fun d hd hother ↦ hnone d hd fun x hx ↦
        hother x (List.mem_cons_of_mem _ hx)⟩
      rw [List.filter_cons_of_pos (p := fun x ↦ (c.images x).isPossibleAlias) hpossible, firstPass,
        if_pos hpossible, hok]
      rfl

/-- The second pass over such images changes no image either. -/
theorem secondPass_of_distinct (rest : List ℕ) : ∀ c : RSPImageCollection,
    DistinctDigests c rest → (∀ x ∈ rest, c.byDigest (c.images x).digest = none) →
    ∃ c', secondPass order title rest c = .ok c' ∧ c'.images = c.images := by
  induction rest with
  | nil => exact fun c _ _ ↦ ⟨c, rfl, rfl⟩
  | cons i rest ih =>
    intro c hdistinct hnew
    obtain ⟨hi, hdistinct⟩ := List.pairwise_cons.1 hdistinct
    obtain ⟨c', hok, himages⟩ := ih
      ((c.appendUnresolved (c.images i).digest i).setByDigest (c.images i).digest i) hdistinct
      fun x hx ↦ update_digest_none (hnew x (List.mem_cons_of_mem _ hx)) (hi x hx)
    refine ⟨c', ?_, himages⟩
    simp only [secondPass, hnew i List.mem_cons_self]
    exact hok

/-- **Images of distinct digests are indexed as they are**: nothing is resolved. -/
theorem init_of_distinct [Ord Version] {heap : Heap RSPImage} {images m : List ℕ}
    {cycle : Option ℕ} (hm : m = images.filter fun i ↦ cycle = none ∨ (heap i).cycle = cycle)
    (h : m.Pairwise fun x y ↦ (heap x).digest ≠ (heap y).digest) :
    ∃ c, init order title heap images cycle = .ok c ∧ c.images = heap ∧
      (c.allImages false false).Perm m := by
  obtain ⟨collection, hindex, -, -⟩ := reindexTags_spec m ⟨heap, fun _ ↦ none, fun _ ↦ [], .empty⟩
  obtain ⟨c₁, hfirst, himages₁, hnone⟩ := firstPass_of_distinct order title m
    ⟨heap, fun _ ↦ none, fun _ ↦ [], collection⟩ h fun _ _ ↦ rfl
  have hdistinct : DistinctDigests c₁ (m.filter fun x ↦ (heap x).isPossibleAlias) := by
    rw [DistinctDigests, himages₁]
    exact h.filter _
  obtain ⟨c₂, hsecond, himages₂⟩ := secondPass_of_distinct order title _ c₁ hdistinct fun x hx ↦ by
    obtain ⟨hx, hpossible⟩ := List.mem_filter.1 hx
    rw [himages₁]
    refine hnone _ rfl fun y hy hyp hd ↦ ?_
    have hxy : y = x := List.inj_on_of_nodup_map (List.pairwise_map.2 h) hy hx hd
    rw [← hxy, hyp] at hpossible
    cases hpossible
  obtain ⟨collection', hindex', -, hindexed⟩ := reindexTags_spec m c₂
  refine ⟨{ c₂ with collection := collection' }, ?_, himages₂.trans himages₁, ?_⟩
  · simp only [init, replaceContents, ← hm]
    exact bind_eq_ok.2 ⟨_, hindex, bind_eq_ok.2 ⟨_, hfirst, bind_eq_ok.2 ⟨_, hsecond, hindex'⟩⟩⟩
  · have hlisted : ({ c₂ with collection := collection' } : RSPImageCollection).allImages false false =
        collection'.allTags c₂.view false := by
      simp [allImages, RSPImageTagCollection.allTags]
    rw [hlisted]
    exact hindexed.perm_allTags

variable {order title}

/-! ### Runs -/

section Runs

variable [Ord Version] {images : List ℕ} {cycle : Option ℕ}

/-- Rebuilding the contents makes the index cover them. -/
theorem replaceContents_covers (h : replaceContents order title images cycle c = .ok c') :
    Covers c' := by
  obtain ⟨m, hm⟩ : ∃ m, m = images.filter fun i ↦ cycle = none ∨ (c.images i).cycle = cycle :=
    ⟨_, rfl⟩
  obtain ⟨-, hdigest, hindexed⟩ := replaceContents_indexed h
  rw [← hm] at hindexed
  have hlisted : ∀ x, x ∈ c'.allImages false false ↔ x ∈ m := by
    intro x
    rw [← hindexed.mem_allTags]
    simp [allImages]
  obtain ⟨c₁, hindex, hpasses⟩ := bind_eq_ok.1 h
  obtain ⟨⟨later, c₂⟩, hfirst, hlater⟩ := bind_eq_ok.1 hpasses
  obtain ⟨c₃, hsecond, hindex'⟩ := bind_eq_ok.1 hlater
  obtain ⟨collection₁, hindex₁, -, -⟩ := reindexTags_spec m
    { c with byDigest := fun _ ↦ none, unresolvedAliases := fun _ ↦ [] }
  obtain ⟨collection₃, hindex₃, -, -⟩ := reindexTags_spec m c₃
  rw [hm] at hindex₁ hindex₃
  obtain rfl := Except.ok.inj (hindex₁.symm.trans hindex)
  obtain rfl := Except.ok.inj (hindex₃.symm.trans hindex')
  rw [← hm] at hfirst
  obtain ⟨hfiles, hsub⟩ := firstPass_files m hfirst
  have hfiles' := secondPass_files later hsecond
  refine ⟨fun d x hx ↦ ?_, fun x hx ↦ ?_⟩
  · rw [hlisted, hdigest]
    rcases hfiles'.filed d x hx with hx | ⟨hx, hd⟩
    · rcases hfiles.filed d x hx with hx | ⟨hx, hd⟩
      · cases hx
      · exact ⟨hx, hd⟩
    · exact ⟨hsub x hx, (hfiles.keeps.digest x).symm.trans hd⟩
  · rw [hlisted] at hx
    rw [hdigest]
    rcases hfiles.covered x hx with hx | hx
    · have hcovered := hfiles'.covered x hx
      rw [hfiles.keeps.digest] at hcovered
      simpa using hcovered
    · exact hfiles'.kept _ hx

/-- An addition lists one image more and keeps the index covering. -/
theorem Covers.add (h : Covers c) (hadd : add order title i c = .ok c') : Covers c' := by
  rw [RSPImageCollection.add] at hadd
  split at hadd
  · exact replaceContents_covers hadd
  obtain ⟨c₁, hdigest, hadd⟩ := bind_eq_ok.1 hadd
  have hfiles : Files [i] [] c c₁ := by
    have hrest : Files [] [] c₁ c₁ := ⟨.refl c₁, fun _ _ hx ↦ Or.inl hx, fun _ hd ↦ hd, by simp⟩
    rw [addByDigest] at hdigest
    split at hdigest
    · next other hother => exact hrest.cons_resolved hother (Or.inl hdigest)
    · obtain rfl := Except.ok.inj hdigest
      exact hrest.cons_first rfl rfl rfl
  split at hadd
  · cases hadd
  · next collection hcollection =>
    obtain rfl := Except.ok.inj hadd
    have hlisted : ∀ x, x ∈ ({ c₁ with collection } : RSPImageCollection).allImages false false ↔
        x ∈ c.allImages false false ∨ x = i := by
      intro x
      rw [mem_allImages_iff, mem_allImages_iff, ← hfiles.keeps.collection]
      exact RSPImageTagCollection.mem_byType_of_add hcollection
    refine ⟨fun d x hx ↦ ?_, fun x hx ↦ ?_⟩
    · rw [hlisted]
      rcases hfiles.filed d x hx with hx | ⟨hx, hd⟩
      · exact ⟨Or.inl (h.filed d x hx).1, (hfiles.keeps.digest x).trans (h.filed d x hx).2⟩
      · exact ⟨Or.inr (List.mem_singleton.1 hx), (hfiles.keeps.digest x).trans hd⟩
    · show (c₁.byDigest (c₁.images x).digest).isSome
      rw [hfiles.keeps.digest]
      rcases (hlisted x).1 hx with hx | rfl
      · exact hfiles.kept _ (h.covered x hx)
      · simpa using hfiles.covered x List.mem_cons_self

variable (order title)

/-- **A run of a collection**: it is built, images are added, and the images are changed by others, such
as other collections that share them; nobody changes a digest. -/
inductive Reached : RSPImageCollection → Prop
  | init {heap : Heap RSPImage} {images : List ℕ} {cycle : Option ℕ} {c : RSPImageCollection} :
    RSPImageCollection.init order title heap images cycle = .ok c → Reached c
  | add {c c' : RSPImageCollection} {i : ℕ} :
    Reached c → RSPImageCollection.add order title i c = .ok c' → Reached c'
  | shared {c : RSPImageCollection} {heap : Heap RSPImage} :
    Reached c → (∀ i, (heap i).digest = (c.images i).digest) → Reached { c with images := heap }

variable {order title}

/-- **The run lemma.** -/
theorem Reached.covers (h : Reached order title c) : Covers c := by
  induction h with
  | init hinit => exact replaceContents_covers hinit
  | add _ hadd ih => exact ih.add hadd
  | @shared c heap _ hdigest ih =>
    refine ⟨fun d x hx ↦ ?_, fun x hx ↦ ?_⟩
    · obtain ⟨hlisted, hd⟩ := ih.filed d x hx
      exact ⟨mem_allImages_iff.2 (mem_allImages_iff.1 hlisted), (hdigest x).trans hd⟩
    · show (c.byDigest (heap x).digest).isSome
      rw [hdigest]
      exact ih.covered x (mem_allImages_iff.2 (mem_allImages_iff.1 hx))

end Runs

end RSPImageCollection

end Nublado.Images
