import Nublado.Foundations.Except
import Nublado.Images.Indexing

/-!
# What indexing keeps

What every method leaves as it is, provided that it succeeds; nothing is assumed of the images.

* `Keeps`: images keep their tags and digests, and the tag collection stays the same. `Touches` says that
  the index by digest stays the same as well.
* `resolveDuplicate_files`: where two images are resolved, at most the new one takes the place of the
  other in the index by digest.
* `replaceContents_indexed`: the images given are listed, whatever becomes of their aliases.
-/

namespace Nublado.Images

namespace RSPImageCollection

variable {c c' c'' : RSPImageCollection} {i j : ℕ}

/-- The images keep their tags, digests and aliases, and the tag collection is the same. -/
structure Keeps (c c' : RSPImageCollection) : Prop where
  tag : ∀ k, (c'.images k).tag = (c.images k).tag
  digest : ∀ k, (c'.images k).digest = (c.images k).digest
  aliases : ∀ k, (c.images k).aliases ⊆ (c'.images k).aliases
  collection : c'.collection = c.collection

theorem Keeps.refl (c : RSPImageCollection) : Keeps c c :=
  ⟨fun _ ↦ rfl, fun _ ↦ rfl, fun _ ↦ subset_rfl, rfl⟩

theorem Keeps.trans (h : Keeps c c') (h' : Keeps c' c'') : Keeps c c'' where
  tag k := (h'.tag k).trans (h.tag k)
  digest k := (h'.digest k).trans (h.digest k)
  aliases k := (h.aliases k).trans (h'.aliases k)
  collection := h'.collection.trans h.collection

/-- What is found under a digest stays the same as well. -/
structure Touches (c c' : RSPImageCollection) : Prop extends Keeps c c' where
  byDigest : c'.byDigest = c.byDigest

theorem Touches.refl (c : RSPImageCollection) : Touches c c := ⟨.refl c, rfl⟩

theorem Touches.trans (h : Touches c c') (h' : Touches c' c'') : Touches c c'' :=
  ⟨h.toKeeps.trans h'.toKeeps, h'.byDigest.trans h.byDigest⟩

/-- Changing an image in place, but for its tag, its digest and the aliases that it has. -/
theorem Touches.modify (c : RSPImageCollection) (i : ℕ) (f : RSPImage → RSPImage)
    (htag : ∀ image, (f image).tag = image.tag) (hdigest : ∀ image, (f image).digest = image.digest)
    (haliases : ∀ image, image.aliases ⊆ (f image).aliases) :
    Touches c { c with images := c.images.modify i f } := by
  refine ⟨⟨fun k ↦ c.images.modify_field (fun image ↦ image.tag) i k f (htag _),
    fun k ↦ c.images.modify_field RSPImage.digest i k f (hdigest _), fun k ↦ ?_, rfl⟩, rfl⟩
  rw [Heap.modify_apply]
  split
  · exact haliases _
  · exact subset_rfl

theorem addAlias_touches (c : RSPImageCollection) (i : ℕ) (name : String) :
    Touches c (c.addAlias i name) :=
  .modify c i _ (fun _ ↦ rfl) (fun _ ↦ rfl) fun _ ↦ Finset.subset_insert _ _

variable {order : SetOrder} {title : String → String} {new old : ℕ}

theorem resolveAlias_touches (h : resolveAlias title i j c = .ok c') : Touches c c' := by
  rw [resolveAlias] at h
  split at h
  · cases h
  · obtain rfl := Except.ok.inj h
    refine (Touches.modify c i _ ?_ ?_ ?_).trans <| (addAlias_touches _ j _).trans <|
      (Touches.modify _ i _ ?_ ?_ ?_).trans <| .modify _ i _ ?_ ?_ ?_
    case refine_3 => exact fun _ ↦ Finset.subset_union_left
    all_goals first | exact fun _ ↦ rfl | exact fun _ ↦ subset_rfl

theorem markAlias_touches (h : markAlias title new old c = .ok c') : Touches c c' := by
  rw [markAlias] at h
  split at h
  · obtain rfl := Except.ok.inj h
    have hadd := (addAlias_touches c new (c.images old).tag).trans
      (addAlias_touches _ old (c.images new).tag)
    exact ⟨⟨hadd.tag, hadd.digest, hadd.aliases, hadd.collection⟩, hadd.byDigest⟩
  · exact resolveAlias_touches h

theorem listUnder_touches {newTag name : String} (h : listUnder newTag name c = .ok c') :
    Touches c c' := by
  rw [listUnder] at h
  split at h
  · obtain rfl := Except.ok.inj h
    exact .refl c
  · obtain rfl := Except.ok.inj h
    split
    · exact .refl c
    · exact addAlias_touches _ _ _

theorem handOver_touches {newTag oldTag name : String}
    (h : handOver title new newTag oldTag name c = .ok c') : Touches c c' := by
  rw [handOver] at h
  split at h
  · obtain rfl := Except.ok.inj h
    exact .refl c
  · next other hother =>
    split at h
    · obtain rfl := Except.ok.inj h
      exact .refl c
    · refine (addAlias_touches c new name).trans ?_
      dsimp only at h
      split at h
      · obtain ⟨c₁, hresolve, rfl⟩ := map_eq_ok.1 h
        exact (resolveAlias_touches hresolve).trans (addAlias_touches _ _ _)
      · obtain rfl := Except.ok.inj h
        exact addAlias_touches _ _ _

/-- A loop over aliases touches what its body touches. -/
theorem forAliases_touches {size : ℕ}
    {body : String → RSPImageCollection → Except ImageError RSPImageCollection}
    (hbody : ∀ name c c', body name c = .ok c' → Touches c c') (names : List String) :
    ∀ {c c'}, forAliases i size body names c = .ok c' → Touches c c' := by
  induction names with
  | nil =>
    intro c c' h
    rw [forAliases] at h
    split at h
    · cases h
    · obtain rfl := Except.ok.inj h
      exact .refl c
  | cons name names ih =>
    intro c c' h
    rw [forAliases] at h
    split at h
    · cases h
    · obtain ⟨c₁, hname, hrest⟩ := bind_eq_ok.1 h
      exact (hbody _ _ _ hname).trans (ih hrest)

/-- Resolving two images keeps what indexing keeps. They have the same digest, and the new one takes the
place of the other under it, unless it may be an alias. -/
theorem resolveDuplicate_files (h : resolveDuplicate order title new old c = .ok c') :
    Keeps c c' ∧ (c.images new).digest = (c.images old).digest ∧ c'.byDigest =
      if (c.images new).isPossibleAlias then c.byDigest
      else Function.update c.byDigest (c.images new).digest (some new) := by
  rw [resolveDuplicate] at h
  split at h
  · cases h
  · next hdigest =>
    have hdigest := not_not.1 hdigest
    split at h
    · next hpossible =>
      obtain ⟨c₁, hmark, h⟩ := bind_eq_ok.1 h
      have htouches := (markAlias_touches hmark).trans
        (forAliases_touches (fun _ _ _ ↦ listUnder_touches) _ h)
      exact ⟨htouches.toKeeps, hdigest, htouches.byDigest.trans (if_pos hpossible).symm⟩
    · next hpossible =>
      obtain ⟨c₁, hloop, h⟩ := bind_eq_ok.1 h
      obtain rfl := Except.ok.inj h
      have htouches := (addAlias_touches c new (c.images old).tag).trans <|
        (forAliases_touches (fun _ _ _ ↦ handOver_touches) _ hloop).trans <|
          addAlias_touches c₁ old (c.images new).tag
      refine ⟨⟨htouches.tag, htouches.digest, htouches.aliases, htouches.collection⟩, hdigest, ?_⟩
      rw [if_neg hpossible, ← htouches.byDigest]
      rfl

theorem resolveDuplicate_keeps (h : resolveDuplicate order title new old c = .ok c') :
    Keeps c c' := (resolveDuplicate_files h).1

theorem firstPass_keeps (rest : List ℕ) : ∀ {c c' : RSPImageCollection} {unresolved : List ℕ},
    firstPass order title rest c = .ok (unresolved, c') → Keeps c c' := by
  induction rest with
  | nil =>
    intro c c' unresolved h
    cases h
    exact .refl c
  | cons i rest ih =>
    intro c c' unresolved h
    rw [firstPass] at h
    split at h
    · obtain ⟨⟨unresolved', c₁⟩, hrest, h⟩ := bind_eq_ok.1 h
      cases h
      exact ih hrest
    · split at h
      · obtain ⟨c₁, hresolve, hrest⟩ := bind_eq_ok.1 h
        exact (resolveDuplicate_keeps hresolve).trans (ih hrest)
      · have hkeeps := ih h
        exact ⟨hkeeps.tag, hkeeps.digest, hkeeps.aliases, hkeeps.collection⟩

theorem secondPass_keeps (rest : List ℕ) : ∀ {c c' : RSPImageCollection},
    secondPass order title rest c = .ok c' → Keeps c c' := by
  induction rest with
  | nil =>
    intro c c' h
    cases h
    exact .refl c
  | cons i rest ih =>
    intro c c' h
    rw [secondPass] at h
    split at h
    · obtain ⟨c₁, hresolve, hrest⟩ := bind_eq_ok.1 h
      exact (resolveDuplicate_keeps hresolve).trans (ih hrest)
    · have hkeeps := ih h
      exact ⟨hkeeps.tag, hkeeps.digest, hkeeps.aliases, hkeeps.collection⟩

theorem addByDigest_keeps (h : addByDigest order title i c = .ok c') : Keeps c c' := by
  rw [addByDigest] at h
  split at h
  · exact resolveDuplicate_keeps h
  · obtain rfl := Except.ok.inj h
    exact ⟨fun _ ↦ rfl, fun _ ↦ rfl, fun _ ↦ subset_rfl, rfl⟩

variable [Ord Version] {images : List ℕ} {cycle : Option ℕ}

/-- **Reindexing indexes the images given**, whatever becomes of their aliases. -/
theorem replaceContents_indexed (h : replaceContents order title images cycle c = .ok c') :
    (∀ k, (c'.images k).tag = (c.images k).tag) ∧
      (∀ k, (c'.images k).digest = (c.images k).digest) ∧
      RSPImageTagCollection.Indexed c'.view c'.collection
        (images.filter fun i ↦ cycle = none ∨ (c.images i).cycle = cycle) := by
  obtain ⟨c₁, hfirstIndex, hpasses⟩ := bind_eq_ok.1 h
  obtain ⟨⟨unresolved, c₂⟩, hfirst, hlater⟩ := bind_eq_ok.1 hpasses
  obtain ⟨c₃, hsecond, hlastIndex⟩ := bind_eq_ok.1 hlater
  obtain ⟨collection₁, hindex₁, -, -⟩ := reindexTags_spec
    (images.filter fun i ↦ cycle = none ∨ (c.images i).cycle = cycle)
    { c with byDigest := fun _ ↦ none, unresolvedAliases := fun _ ↦ [] }
  obtain ⟨collection₃, hindex₃, -, hindexed⟩ := reindexTags_spec
    (images.filter fun i ↦ cycle = none ∨ (c.images i).cycle = cycle) c₃
  obtain rfl := Except.ok.inj (hindex₁.symm.trans hfirstIndex)
  obtain rfl := Except.ok.inj (hindex₃.symm.trans hlastIndex)
  have hkeeps := (firstPass_keeps _ hfirst).trans (secondPass_keeps _ hsecond)
  exact ⟨hkeeps.tag, hkeeps.digest, hindexed⟩

end RSPImageCollection

end Nublado.Images
