import Nublado.Images.Image

/-!
# Images with the same digest

What `resolveAlias` and `resolveDuplicate` do to the image objects, given a pool of freshly built
images with distinct tags (`Pool`).

* `Consistent` is the invariant of the objects: an image keeps its tag, its digest and whether it may
  be an alias; it lists only other images of its digest as aliases; and only images of type alias have
  a target.
* `Changes` says that an operation concerns one digest: it leaves the images and the index entries of
  every other digest alone, and the tag collection too.
* `resolveDuplicate_of_alias` and `resolveDuplicate_of_target` are the specifications of the two cases
  of `resolveDuplicate`. Both include that no exception is raised; in particular the set of aliases
  that is iterated over does not grow meanwhile, because no image lists itself.
-/

namespace Nublado.Images

/-- Freshly built images with distinct tags. -/
structure Pool (base : Heap RSPImage) : Prop where
  tag_inj : ∀ i < base.size, ∀ j < base.size, (base i).tag = (base j).tag → i = j
  aliases_eq : ∀ i, (base i).aliases = ∅
  target_eq : ∀ i, (base i).aliasTarget = none

namespace RSPImageCollection

/-- An image as `RSPImage.fromTag` makes it. -/
def FromTag (image : RSPImage) : Prop :=
  ∃ tag registry repository digest size,
    image = RSPImage.fromTag tag registry repository digest size

/-- What the heap of these images holds at a reference. -/
theorem ofList_mem_or_default (images : List RSPImage) (i : ℕ) :
    Heap.ofList images i ∈ images ∨ Heap.ofList images i = default := by
  rcases lt_or_ge i images.length with hi | hi
  · rw [Heap.ofList_of_lt hi]
    exact Or.inl (List.getElem_mem hi)
  · exact Or.inr (Heap.ofList_of_ge hi)

/-- **Images as they are made form a pool** if their tags are distinct. -/
theorem pool_ofList {images : List RSPImage} (hfresh : ∀ image ∈ images, FromTag image)
    (htags : (images.map fun image ↦ image.tag).Nodup) : Pool (Heap.ofList images) := by
  have hblank : ∀ i, (Heap.ofList images i).aliases = ∅ ∧
      (Heap.ofList images i).aliasTarget = none := by
    intro i
    rcases ofList_mem_or_default images i with hmem | hdefault
    · obtain ⟨_, _, _, _, _, himage⟩ := hfresh _ hmem
      rw [himage]
      exact ⟨rfl, rfl⟩
    · rw [hdefault]
      exact ⟨rfl, rfl⟩
  refine ⟨?_, fun i ↦ (hblank i).1, fun i ↦ (hblank i).2⟩
  intro i hi j hj htag
  rw [Heap.size_ofList] at hi hj
  rw [Heap.ofList_of_lt hi, Heap.ofList_of_lt hj] at htag
  have hinj := List.nodup_iff_injective_getElem.1 htags
  have heq := @hinj ⟨i, by simpa using hi⟩ ⟨j, by simpa using hj⟩ (by
    simpa only [List.getElem_map] using htag)
  simpa using heq

end RSPImageCollection

namespace RSPImage

/-- What a collection may do to an image. -/
structure Evolves (a b : RSPImage) : Prop where
  tag : b.tag = a.tag
  digest : b.digest = a.digest
  possible : b.isPossibleAlias = a.isPossibleAlias
  fixed : a.isPossibleAlias = false →
    b.toRSPImageTag = a.toRSPImageTag ∧ b.aliasTarget = a.aliasTarget
  aliases : a.aliases ⊆ b.aliases

theorem Evolves.refl (a : RSPImage) : a.Evolves a :=
  ⟨rfl, rfl, rfl, fun _ ↦ ⟨rfl, rfl⟩, subset_rfl⟩

theorem Evolves.trans {a b c : RSPImage} (h : a.Evolves b) (h' : b.Evolves c) : a.Evolves c where
  tag := h'.tag.trans h.tag
  digest := h'.digest.trans h.digest
  possible := h'.possible.trans h.possible
  fixed ha := by
    have hb := h.fixed ha
    have hc := h'.fixed (h.possible.trans ha)
    exact ⟨hc.1.trans hb.1, hc.2.trans hb.2⟩
  aliases := h.aliases.trans h'.aliases

/-- The fields that say what an image is an alias of. -/
def status (image : RSPImage) : RSPImageType × Option String := (image.imageType, image.aliasTarget)

end RSPImage

namespace RSPImageCollection

variable {base : Heap RSPImage} {c c' c'' : RSPImageCollection} {d : String} {i j : ℕ}

/-- The invariant of the image objects. -/
structure Consistent (base : Heap RSPImage) (c : RSPImageCollection) : Prop where
  evolves : ∀ i, (base i).Evolves (c.images i)
  alias_mem : ∀ i < base.size, ∀ name ∈ (c.images i).aliases, ∃ j < base.size, j ≠ i ∧
    (base j).tag = name ∧ (base j).digest = (base i).digest
  type_eq : ∀ i, (c.images i).aliasTarget ≠ none → (c.images i).imageType = .alias
  architecture : (∀ i, (base i).architecture = none) → ∀ i, (c.images i).architecture = none

/-- Only images and index entries of the digest `d` differ. -/
structure Changes (base : Heap RSPImage) (d : String) (c c' : RSPImageCollection) : Prop where
  evolves : ∀ i, (c.images i).Evolves (c'.images i)
  images : ∀ i, (base i).digest ≠ d → c'.images i = c.images i
  byDigest : ∀ e ≠ d, c'.byDigest e = c.byDigest e
  unresolved : ∀ e ≠ d, c'.unresolvedAliases e = c.unresolvedAliases e
  collection : c'.collection = c.collection

/-- Only images differ. -/
structure SameIndex (c c' : RSPImageCollection) : Prop where
  byDigest : c'.byDigest = c.byDigest
  unresolved : c'.unresolvedAliases = c.unresolvedAliases
  collection : c'.collection = c.collection

theorem Changes.refl (c : RSPImageCollection) : Changes base d c c :=
  ⟨fun _ ↦ .refl _, fun _ _ ↦ rfl, fun _ _ ↦ rfl, fun _ _ ↦ rfl, rfl⟩

theorem Changes.trans (h : Changes base d c c') (h' : Changes base d c' c'') :
    Changes base d c c'' where
  evolves i := (h.evolves i).trans (h'.evolves i)
  images i hi := (h'.images i hi).trans (h.images i hi)
  byDigest e he := (h'.byDigest e he).trans (h.byDigest e he)
  unresolved e he := (h'.unresolved e he).trans (h.unresolved e he)
  collection := h'.collection.trans h.collection

theorem SameIndex.refl (c : RSPImageCollection) : SameIndex c c := ⟨rfl, rfl, rfl⟩

theorem SameIndex.trans (h : SameIndex c c') (h' : SameIndex c' c'') : SameIndex c c'' :=
  ⟨h'.byDigest.trans h.byDigest, h'.unresolved.trans h.unresolved,
    h'.collection.trans h.collection⟩

namespace Consistent

theorem tag (h : Consistent base c) (i : ℕ) : (c.images i).tag = (base i).tag := (h.evolves i).tag

theorem digest (h : Consistent base c) (i : ℕ) : (c.images i).digest = (base i).digest :=
  (h.evolves i).digest

theorem possible (h : Consistent base c) (i : ℕ) :
    (c.images i).isPossibleAlias = (base i).isPossibleAlias := (h.evolves i).possible

/-- An image that has a target may be an alias. -/
theorem possible_of_target (h : Consistent base c) (hi : (c.images i).aliasTarget ≠ none) :
    (base i).isPossibleAlias = true := by
  rw [← h.possible, RSPImage.isPossibleAlias, h.type_eq i hi]
  rfl

end Consistent

/-! ### Adding an alias -/

@[simp] theorem addAlias_images_self (c : RSPImageCollection) (i : ℕ) (name : String) :
    (c.addAlias i name).images i =
      { c.images i with aliases := insert name (c.images i).aliases } := by
  simp [addAlias]

theorem addAlias_images_of_ne (c : RSPImageCollection) (name : String) (hji : j ≠ i) :
    (c.addAlias i name).images j = c.images j := by
  simp [addAlias, hji]

theorem addAlias_aliases (c : RSPImageCollection) (i j : ℕ) (name : String) :
    ((c.addAlias i name).images j).aliases =
      if j = i then insert name (c.images j).aliases else (c.images j).aliases := by
  rcases eq_or_ne j i with rfl | hne
  · simp
  · simp [addAlias_images_of_ne c name hne, hne]

theorem addAlias_sameIndex (c : RSPImageCollection) (i : ℕ) (name : String) :
    SameIndex c (c.addAlias i name) := ⟨rfl, rfl, rfl⟩

/-- Only the aliases of an image change. -/
theorem addAlias_images (c : RSPImageCollection) (i j : ℕ) (name : String) :
    (c.addAlias i name).images j =
      { c.images j with aliases := ((c.addAlias i name).images j).aliases } := by
  rcases eq_or_ne j i with rfl | hne
  · simp
  · rw [addAlias_images_of_ne c name hne]

@[simp] theorem addAlias_status (c : RSPImageCollection) (i j : ℕ) (name : String) :
    ((c.addAlias i name).images j).status = (c.images j).status := by
  rw [addAlias_images]
  rfl

theorem addAlias_evolves (c : RSPImageCollection) (i j : ℕ) (name : String) :
    (c.images j).Evolves ((c.addAlias i name).images j) := by
  have haliases : (c.images j).aliases ⊆ ((c.addAlias i name).images j).aliases := by
    rw [addAlias_aliases]
    split
    · exact Finset.subset_insert _ _
    · exact subset_rfl
  rw [addAlias_images]
  exact ⟨rfl, rfl, rfl, fun _ ↦ ⟨rfl, rfl⟩, haliases⟩

theorem addAlias_changes (c : RSPImageCollection) (hi : (base i).digest = d) (name : String) :
    Changes base d c (c.addAlias i name) where
  evolves j := addAlias_evolves c i j name
  images j hj := addAlias_images_of_ne c name fun hji ↦ hj (hji ▸ hi)
  byDigest _ _ := rfl
  unresolved _ _ := rfl
  collection := rfl

/-- An image may list the tag of another image of its digest. -/
theorem Consistent.addAlias {name : String} (h : Consistent base c) (hj : j < base.size)
    (hji : j ≠ i) (hname : (base j).tag = name) (hdigest : (base j).digest = (base i).digest) :
    Consistent base (c.addAlias i name) where
  evolves k := (h.evolves k).trans (addAlias_evolves c i k name)
  alias_mem k hk other hother := by
    rw [addAlias_aliases] at hother
    split at hother
    · next hki =>
      subst hki
      rcases Finset.mem_insert.1 hother with rfl | hother
      · exact ⟨j, hj, hji, hname, hdigest⟩
      · exact h.alias_mem k hk other hother
    · exact h.alias_mem k hk other hother
  type_eq k hk := by
    rw [addAlias_images] at hk ⊢
    exact h.type_eq k hk
  architecture hbase k := by
    rw [addAlias_images]
    exact h.architecture hbase k

/-! ### Resolving an alias -/

/-- **Specification of `resolveAlias`.** It changes the alias and its target only, makes the alias
point to the target, and lists it there. -/
theorem resolveAlias_spec (title : String → String) {t : ℕ} (hc : Consistent base c)
    (hi : i < base.size) (ht : t < base.size) (hne : i ≠ t)
    (hpossible : (base i).isPossibleAlias = true)
    (hdigest : (base i).digest = (base t).digest) :
    ∃ c', resolveAlias title i t c = .ok c' ∧ Consistent base c' ∧
      Changes base (base i).digest c c' ∧ SameIndex c c' ∧
      (∀ k, k ≠ i → k ≠ t → c'.images k = c.images k) ∧
      (∀ k, k ≠ i → (c'.images k).status = (c.images k).status) ∧
      (c'.images i).status = (.alias, some (base t).tag) ∧
      (base i).tag ∈ (c'.images t).aliases := by
  have hpossible' : (c.images i).isPossibleAlias = true := (hc.possible i).trans hpossible
  obtain ⟨c', hc'⟩ : ∃ c', resolveAlias title i t c = .ok c' := by
    rw [resolveAlias, if_neg (by simp [hpossible'])]
    exact ⟨_, rfl⟩
  have himages : ∀ k, k ≠ i → k ≠ t → c'.images k = c.images k := by
    intro k hki hkt
    rw [resolveAlias, if_neg (by simp [hpossible'])] at hc'
    obtain rfl := Except.ok.inj hc'
    simp [RSPImageCollection.addAlias, hki, hkt]
  have htarget : c'.images t = { c.images t with
      aliases := insert (base i).tag (c.images t).aliases } := by
    rw [resolveAlias, if_neg (by simp [hpossible'])] at hc'
    obtain rfl := Except.ok.inj hc'
    simp [RSPImageCollection.addAlias, hne.symm, hc.tag]
  have halias : (c'.images i).status = (.alias, some (base t).tag) ∧
      (c'.images i).tag = (base i).tag ∧ (c'.images i).digest = (base i).digest ∧
      (c'.images i).aliases = (c.images i).aliases ∪ (c.images t).aliases.erase (base i).tag ∧
      (c'.images i).architecture = (c.images i).architecture.or (c.images t).architecture := by
    rw [resolveAlias, if_neg (by simp [hpossible'])] at hc'
    obtain rfl := Except.ok.inj hc'
    simp [RSPImageCollection.addAlias, RSPImage.status, hne, hne.symm, hc.tag, hc.digest]
  have hindex : SameIndex c c' := by
    rw [resolveAlias, if_neg (by simp [hpossible'])] at hc'
    obtain rfl := Except.ok.inj hc'
    exact ⟨rfl, rfl, rfl⟩
  obtain ⟨hstatus, htag, hdigest', haliases, harchitecture⟩ := halias
  have hevolves : ∀ k, (c.images k).Evolves (c'.images k) := by
    intro k
    rcases eq_or_ne k i with rfl | hki
    · refine ⟨htag.trans (hc.tag k).symm, hdigest'.trans (hc.digest k).symm, ?_, ?_, ?_⟩
      · have htype : (c'.images k).imageType = .alias := congrArg Prod.fst hstatus
        rw [hpossible', RSPImage.isPossibleAlias, htype]
        rfl
      · simp [hpossible']
      · rw [haliases]
        exact Finset.subset_union_left
    rcases eq_or_ne k t with rfl | hkt
    · rw [htarget]
      exact ⟨rfl, rfl, rfl, fun _ ↦ ⟨rfl, rfl⟩, Finset.subset_insert _ _⟩
    · rw [himages k hki hkt]
      exact .refl _
  have hconsistent : Consistent base c' := by
    refine ⟨fun k ↦ (hc.evolves k).trans (hevolves k), ?_, ?_, ?_⟩
    · intro k hk name hname
      rcases eq_or_ne k i with rfl | hki
      · rw [haliases] at hname
        rcases Finset.mem_union.1 hname with hname | hname
        · exact hc.alias_mem k hk name hname
        · obtain ⟨hnew, hname⟩ := Finset.mem_erase.1 hname
          obtain ⟨j, hj, -, hjname, hjdigest⟩ := hc.alias_mem t ht name hname
          exact ⟨j, hj, fun hjk ↦ hnew (by rw [← hjname, hjk]), hjname, hjdigest.trans hdigest.symm⟩
      rcases eq_or_ne k t with rfl | hkt
      · rw [htarget] at hname
        rcases Finset.mem_insert.1 hname with rfl | hname
        · exact ⟨i, hi, hne, rfl, hdigest⟩
        · exact hc.alias_mem k hk name hname
      · rw [himages k hki hkt] at hname
        exact hc.alias_mem k hk name hname
    · intro k hk
      rcases eq_or_ne k i with rfl | hki
      · exact congrArg Prod.fst hstatus
      rcases eq_or_ne k t with rfl | hkt
      · rw [htarget] at hk ⊢
        exact hc.type_eq k hk
      · rw [himages k hki hkt] at hk ⊢
        exact hc.type_eq k hk
    · intro hbase k
      have hnone := hc.architecture hbase
      rcases eq_or_ne k i with rfl | hki
      · rw [harchitecture, hnone, hnone]
        rfl
      rcases eq_or_ne k t with rfl | hkt
      · rw [htarget]
        exact hnone k
      · rw [himages k hki hkt]
        exact hnone k
  refine ⟨c', hc', hconsistent, ⟨hevolves, ?_, ?_, ?_, hindex.collection⟩, hindex, himages, ?_,
    hstatus, ?_⟩
  · intro k hk
    exact himages k (fun hki ↦ hk (by rw [hki])) fun hkt ↦ hk (by rw [hkt, hdigest])
  · intro e _
    rw [hindex.byDigest]
  · intro e _
    rw [hindex.unresolved]
  · intro k hki
    rcases eq_or_ne k t with rfl | hkt
    · rw [htarget]
      rfl
    · rw [himages k hki hkt]
  · rw [htarget]
    exact Finset.mem_insert_self _ _

/-! ### Iterating over aliases -/

/-- **The loop rule.** A body that succeeds on every element, keeping an invariant under which the
set has its original size, makes a loop that succeeds. -/
theorem forAliases_spec (i size : ℕ)
    (body : String → RSPImageCollection → Except ImageError RSPImageCollection)
    (P : List String → RSPImageCollection → Prop) (names : List String)
    (hbody : ∀ done name rest c, names = done ++ name :: rest → P done c →
      ∃ c', body name c = .ok c' ∧ P (done ++ [name]) c')
    (hsize : ∀ done c, P done c → (c.images i).aliases.card = size) (h : P [] c) :
    ∃ c', forAliases i size body names c = .ok c' ∧ P names c' := by
  have hloop : ∀ rest done c, names = done ++ rest → P done c →
      ∃ c', forAliases i size body rest c = .ok c' ∧ P names c' := by
    intro rest
    induction rest with
    | nil =>
      intro done c hnames hP
      rw [List.append_nil] at hnames
      subst hnames
      exact ⟨c, by rw [forAliases, if_neg (by simp [hsize names c hP])], hP⟩
    | cons name rest ih =>
      intro done c hnames hP
      obtain ⟨c', hc', hP'⟩ := hbody done name rest c hnames hP
      obtain ⟨c'', hc'', hP''⟩ := ih (done ++ [name]) c' (by simpa using hnames) hP'
      refine ⟨c'', ?_, hP''⟩
      rw [forAliases, if_neg (by simp [hsize done c hP])]
      show (body name c >>= _) = _
      rw [hc']
      exact hc''
  exact hloop names [] c rfl h

/-! ### Resolving duplicates -/

/-- What the tag collection finds under a name has that name. -/
def Refers (base : Heap RSPImage) (c : RSPImageCollection) : Prop :=
  ∀ name i, c.collection.tagForTagName name = some i → i < base.size ∧ (base i).tag = name

/-- What the tag collection finds under an alias of an image is another image of its digest. -/
theorem Refers.of_alias {old other : ℕ} {name : String} (h : Refers base c) (hpool : Pool base)
    (hc : Consistent base c) (hold : old < base.size) (hname : name ∈ (c.images old).aliases)
    (hother : c.collection.tagForTagName name = some other) :
    other < base.size ∧ other ≠ old ∧ (base other).tag = name ∧
      (base other).digest = (base old).digest := by
  obtain ⟨hlt, htag⟩ := h name other hother
  obtain ⟨j, hj, hjold, hjtag, hjdigest⟩ := hc.alias_mem old hold name hname
  obtain rfl : j = other := hpool.tag_inj j hj other hlt (hjtag.trans htag.symm)
  exact ⟨hlt, hjold, htag, hjdigest⟩

variable (order : SetOrder) (title : String → String) {new old : ℕ}

/-- What `markAlias` does. -/
theorem markAlias_spec (hc : Consistent base c) (hnew : new < base.size) (hold : old < base.size)
    (hne : new ≠ old) (hdigest : (base new).digest = (base old).digest)
    (hpossible : (base new).isPossibleAlias = true) :
    ∃ c', markAlias title new old c = .ok c' ∧ Consistent base c' ∧
      Changes base (base new).digest c c' ∧ c'.byDigest = c.byDigest ∧
      (∀ k ≠ new, (c'.images k).status = (c.images k).status) ∧
      ((base old).isPossibleAlias = true →
        c'.unresolvedAliases (base new).digest = c.unresolvedAliases (base new).digest ++ [new]) ∧
      ((base old).isPossibleAlias = false →
        c'.unresolvedAliases = c.unresolvedAliases ∧
        (c'.images new).status = (.alias, some (base old).tag) ∧
        (base new).tag ∈ (c'.images old).aliases) := by
  rcases hold' : (base old).isPossibleAlias with _ | _
  · obtain ⟨c', hresolve, hc', hchanges, hindex, -, hstatus, hnewStatus, hmem⟩ :=
      resolveAlias_spec title hc hnew hold hne hpossible hdigest
    refine ⟨c', by simpa [markAlias, hc.possible, hold'] using hresolve, hc', hchanges,
      hindex.byDigest, hstatus, by simp, fun _ ↦ ⟨hindex.unresolved, hnewStatus, hmem⟩⟩
  · have hadd : Consistent base (c.addAlias new (base old).tag) :=
      hc.addAlias hold hne.symm rfl hdigest.symm
    have hadds := hadd.addAlias hnew hne rfl hdigest
    have hchanges := (addAlias_changes c (rfl : (base new).digest = _) (base old).tag).trans
      (addAlias_changes _ hdigest.symm (base new).tag)
    refine ⟨((c.addAlias new (base old).tag).addAlias old (base new).tag).appendUnresolved
      (base new).digest new, by simp [markAlias, hc.possible, hold', hc.tag, hc.digest], ?_, ?_, rfl,
      ?_, ?_, by simp⟩
    · exact ⟨hadds.evolves, hadds.alias_mem, hadds.type_eq, hadds.architecture⟩
    · exact ⟨hchanges.evolves, hchanges.images, fun _ _ ↦ rfl,
        fun e he ↦ Function.update_of_ne he _ _, rfl⟩
    · intro k _
      exact (addAlias_status _ _ _ _).trans (addAlias_status _ _ _ _)
    · intro _
      exact Function.update_self _ _ _

/-- **Specification of `resolveDuplicate` for a possible alias.** Where the other image is not one, the
alias is resolved to it; otherwise the alias joins the unresolved ones. -/
theorem resolveDuplicate_of_alias (hpool : Pool base) (hc : Consistent base c)
    (hrefers : Refers base c) (hnew : new < base.size) (hold : old < base.size) (hne : new ≠ old)
    (hdigest : (base new).digest = (base old).digest)
    (hpossible : (base new).isPossibleAlias = true) :
    ∃ c', resolveDuplicate order title new old c = .ok c' ∧ Consistent base c' ∧
      Changes base (base new).digest c c' ∧ c'.byDigest = c.byDigest ∧
      (∀ k ≠ new, (c'.images k).status = (c.images k).status) ∧
      ((base old).isPossibleAlias = true →
        c'.unresolvedAliases (base new).digest = c.unresolvedAliases (base new).digest ++ [new]) ∧
      ((base old).isPossibleAlias = false →
        c'.unresolvedAliases = c.unresolvedAliases ∧
        (c'.images new).status = (.alias, some (base old).tag) ∧
        (base new).tag ∈ (c'.images old).aliases) := by
  obtain ⟨c₁, hmark, hc₁, hchanges₁, hbyDigest₁, hstatus₁, hboth, htarget⟩ :=
    markAlias_spec title hc hnew hold hne hdigest hpossible
  -- The loop changes neither the index nor any status nor the set it runs over.
  let P : List String → RSPImageCollection → Prop := fun _ c₂ ↦ Consistent base c₂ ∧
    Changes base (base new).digest c₁ c₂ ∧ SameIndex c₁ c₂ ∧ c₂.images old = c₁.images old ∧
    ∀ k, (c₂.images k).status = (c₁.images k).status
  have hbody : ∀ done name rest c₂, order.toList (c₁.images old).aliases = done ++ name :: rest →
      P done c₂ → ∃ c₃, listUnder (c.images new).tag name c₂ = .ok c₃ ∧ P (done ++ [name]) c₃ := by
    rintro done name rest c₂ hnames ⟨hc₂, hchanges₂, hindex₂, hsame₂, hstatus₂⟩
    have hname : name ∈ (c₂.images old).aliases := by
      rw [hsame₂, ← order.mem_toList, hnames]
      simp
    have hrefers₂ : Refers base c₂ := by
      intro name k hk
      rw [hindex₂.collection, hchanges₁.collection] at hk
      exact hrefers name k hk
    rcases hlookup : c₂.collection.tagForTagName name with _ | other
    · exact ⟨c₂, by rw [listUnder, hlookup], hc₂, hchanges₂, hindex₂, hsame₂, hstatus₂⟩
    obtain ⟨-, hotherOld, hotherTag, hotherDigest⟩ := hrefers₂.of_alias hpool hc₂ hold hname hlookup
    rcases eq_or_ne name (c.images new).tag with hskip | hskip
    · exact ⟨c₂, by rw [listUnder, hlookup]; exact congrArg _ (if_pos hskip), hc₂, hchanges₂,
        hindex₂, hsame₂, hstatus₂⟩
    · have hnewOther : new ≠ other := fun h ↦ hskip (by rw [← hotherTag, ← h, hc.tag])
      refine ⟨c₂.addAlias other (c.images new).tag, by simp [listUnder, hlookup, hskip],
        hc₂.addAlias hnew hnewOther (hc.tag new).symm (hdigest.trans hotherDigest.symm),
        hchanges₂.trans (addAlias_changes c₂ (hotherDigest.trans hdigest.symm) _),
        hindex₂.trans (addAlias_sameIndex _ _ _), ?_, ?_⟩
      · rw [addAlias_images_of_ne c₂ _ hotherOld.symm, hsame₂]
      · intro k
        rw [addAlias_status, hstatus₂]
  obtain ⟨c', hloop, hc', hchanges, hindex, hsame, hstatus⟩ := forAliases_spec old
    (c₁.images old).aliases.card _ P _ hbody
    (by
      rintro _ c₂ ⟨-, -, -, hsame₂, -⟩
      rw [hsame₂])
    ⟨hc₁, .refl _, .refl _, rfl, fun _ ↦ rfl⟩
  refine ⟨c', ?_, hc', hchanges₁.trans hchanges, hindex.byDigest.trans hbyDigest₁, ?_, ?_, ?_⟩
  · rw [resolveDuplicate, if_neg (by simp [hc.digest, hdigest]),
      if_pos ((hc.possible new).trans hpossible), hmark]
    exact hloop
  · intro k hk
    rw [hstatus, hstatus₁ k hk]
  · intro h
    rw [hindex.unresolved, hboth h]
  · intro h
    obtain ⟨hunresolved, hnewStatus, hmem⟩ := htarget h
    exact ⟨hindex.unresolved.trans hunresolved, (hstatus new).trans hnewStatus, hsame ▸ hmem⟩

/-- The aliases among `names` that pointed to the old tag point to the image `new`, which lists them;
what any other image is an alias of is as it was. -/
structure HandedOver (base : Heap RSPImage) (new : ℕ) (oldTag : String) (names : List String)
    (c c' : RSPImageCollection) : Prop where
  status : ∀ k, (c'.images k).status = (c.images k).status ∨
    (c.images k).aliasTarget = some oldTag ∧
      (c'.images k).status = (.alias, some (base new).tag) ∧
      (base k).tag ∈ (c'.images new).aliases
  handed : ∀ k, c.collection.tagForTagName (base k).tag = some k → (base k).tag ∈ names →
    (c.images k).aliasTarget = some oldTag →
    (c'.images k).status = (.alias, some (base new).tag) ∧
      (base k).tag ∈ (c'.images new).aliases

/-- An operation that changes no status hands nothing over. -/
theorem HandedOver.of_status (hstatus : ∀ k, (c'.images k).status = (c.images k).status)
    {oldTag : String} : HandedOver base new oldTag [] c c' :=
  ⟨fun k ↦ Or.inl (hstatus k), by simp⟩

/-- An image without a target is handed to none. -/
theorem HandedOver.target_eq_none {oldTag : String} {names : List String} {k : ℕ}
    (h : HandedOver base new oldTag names c c') (hk : (c.images k).aliasTarget = none) :
    (c'.images k).aliasTarget = none := by
  rcases h.status k with hsame | ⟨htarget, -⟩
  · exact (congrArg Prod.snd hsame).trans hk
  · rw [hk] at htarget
    cases htarget

theorem HandedOver.trans {oldTag : String} {names names' : List String}
    (h : HandedOver base new oldTag names c c') (h' : HandedOver base new oldTag names' c' c'')
    (hne : (base new).tag ≠ oldTag) (hevolves : ∀ i, (c'.images i).Evolves (c''.images i))
    (hcollection : c'.collection = c.collection) :
    HandedOver base new oldTag (names ++ names') c c'' := by
  -- What was handed over first is not handed over again.
  have hkeep : ∀ k, (c'.images k).status = (.alias, some (base new).tag) →
      (base k).tag ∈ (c'.images new).aliases →
      (c''.images k).status = (.alias, some (base new).tag) ∧
        (base k).tag ∈ (c''.images new).aliases := by
    intro k hstatus hmem
    refine ⟨?_, (hevolves new).aliases hmem⟩
    rcases h'.status k with hk | ⟨htarget, -⟩
    · exact hk.trans hstatus
    · have htarget' : (c'.images k).aliasTarget = some (base new).tag := congrArg Prod.snd hstatus
      exact absurd (Option.some.inj (htarget'.symm.trans htarget)) hne
  constructor
  · intro k
    rcases h.status k with hk | ⟨htarget, hstatus, hmem⟩
    · have htarget : (c'.images k).aliasTarget = (c.images k).aliasTarget := congrArg Prod.snd hk
      rcases h'.status k with hk' | hk'
      · exact Or.inl (hk'.trans hk)
      · exact Or.inr ⟨htarget ▸ hk'.1, hk'.2⟩
    · exact Or.inr ⟨htarget, hkeep k hstatus hmem⟩
  · intro k hk hmem htarget
    rcases List.mem_append.1 hmem with hmem | hmem
    · obtain ⟨hstatus, hmem⟩ := h.handed k hk hmem htarget
      exact hkeep k hstatus hmem
    · rcases h.status k with hsame | ⟨-, hstatus, hmem'⟩
      · have htarget' : (c'.images k).aliasTarget = (c.images k).aliasTarget :=
          congrArg Prod.snd hsame
        exact h'.handed k (hcollection ▸ hk) hmem (htarget'.trans htarget)
      · exact hkeep k hstatus hmem'

/-- What `handOver` does with one of the aliases of the old image. -/
theorem handOver_spec (hpool : Pool base) (hc : Consistent base c) (hrefers : Refers base c)
    (hnew : new < base.size) (hold : old < base.size) (hne : new ≠ old)
    (hdigest : (base new).digest = (base old).digest)
    (hpossible : (base new).isPossibleAlias = false) {name : String}
    (hname : name ∈ (c.images old).aliases) :
    ∃ c', handOver title new (base new).tag (base old).tag name c = .ok c' ∧ Consistent base c' ∧
      Changes base (base new).digest c c' ∧ SameIndex c c' ∧ c'.images old = c.images old ∧
      HandedOver base new (base old).tag [name] c c' := by
  -- A status that stays is enough, unless the image of this name pointed to the old one.
  have hkept : ∀ {c'}, (∀ k, (c'.images k).status = (c.images k).status) →
      (∀ k, c.collection.tagForTagName (base k).tag = some k → (base k).tag = name →
        (c.images k).aliasTarget ≠ some (base old).tag) →
      HandedOver base new (base old).tag [name] c c' := fun hstatus hnone ↦
    ⟨fun k ↦ Or.inl (hstatus k), fun k hk hmem htarget ↦
      absurd htarget (hnone k hk (List.mem_singleton.1 hmem))⟩
  rcases hlookup : c.collection.tagForTagName name with _ | other
  · refine ⟨c, by rw [handOver, hlookup], hc, .refl _, .refl _, rfl, hkept (fun _ ↦ rfl) ?_⟩
    intro k hk hkname
    simp [hkname, hlookup] at hk
  obtain ⟨hother, hotherOld, hotherTag, hotherDigest⟩ :=
    hrefers.of_alias hpool hc hold hname hlookup
  have honly : ∀ k, c.collection.tagForTagName (base k).tag = some k → (base k).tag = name →
      k = other := by
    intro k hk hkname
    rw [hkname, hlookup] at hk
    exact (Option.some.inj hk).symm
  rcases eq_or_ne name (base new).tag with hskip | hskip
  · -- The new image is listed already; it has no target itself.
    refine ⟨c, by rw [handOver, hlookup]; exact if_pos hskip, hc, .refl _, .refl _, rfl,
      hkept (fun _ ↦ rfl) ?_⟩
    intro k hk hkname htarget
    obtain rfl : k = new :=
      hpool.tag_inj k (hrefers _ k hk).1 new hnew (hkname.trans hskip)
    have := hc.possible_of_target (i := k) (by simp [htarget])
    simp [hpossible] at this
  have hotherNew : other ≠ new := fun h ↦ hskip (by rw [← hotherTag, h])
  have hotherDigest' : (base other).digest = (base new).digest := hotherDigest.trans hdigest.symm
  have hc₁ : Consistent base (c.addAlias new name) :=
    hc.addAlias hother hotherNew hotherTag hotherDigest'
  have hold₁ : (c.addAlias new name).images old = c.images old :=
    addAlias_images_of_ne c _ hne.symm
  have hchanges₁ : Changes base (base new).digest c (c.addAlias new name) :=
    addAlias_changes c rfl _
  have htarget₁ : ((c.addAlias new name).images other).aliasTarget = (c.images other).aliasTarget :=
    congrArg Prod.snd (addAlias_status c new other name)
  by_cases htarget : (c.images other).aliasTarget = some (base old).tag
  · -- The alias is resolved again, to the new target.
    have hotherPossible := hc.possible_of_target (i := other) (by simp [htarget])
    obtain ⟨c₂, hresolve, hc₂, hchanges₂, hindex₂, himages₂, hstatus₂, hother₂, hmem₂⟩ :=
      resolveAlias_spec title hc₁ hother hnew hotherNew hotherPossible hotherDigest'
    refine ⟨c₂.addAlias other (base old).tag, ?_, hc₂.addAlias hold hotherOld.symm rfl
      hotherDigest.symm, hchanges₁.trans ((hotherDigest' ▸ hchanges₂).trans
        (addAlias_changes c₂ hotherDigest' _)), (addAlias_sameIndex _ _ _).trans (hindex₂.trans
        (addAlias_sameIndex _ _ _)), ?_, ?_⟩
    · rw [handOver, hlookup]
      simp [hskip, htarget₁, htarget, hresolve, Except.map]
    · rw [addAlias_images_of_ne _ _ hotherOld.symm, himages₂ old hotherOld.symm hne.symm, hold₁]
    · have hnew₂ : (base other).tag ∈
          ((c₂.addAlias other (base old).tag).images new).aliases := by
        rw [addAlias_images_of_ne _ _ hotherNew.symm]
        exact hmem₂
      constructor
      · intro k
        rcases eq_or_ne k other with rfl | hk
        · exact Or.inr ⟨htarget, by rw [addAlias_status, hother₂], hnew₂⟩
        · exact Or.inl (by rw [addAlias_status, hstatus₂ k hk, addAlias_status])
      · intro k hk hmem _
        obtain rfl := honly k hk (List.mem_singleton.1 hmem)
        exact ⟨by rw [addAlias_status, hother₂], hnew₂⟩
  · refine ⟨(c.addAlias new name).addAlias other (base new).tag, ?_, hc₁.addAlias hnew
      hotherNew.symm rfl hotherDigest'.symm, hchanges₁.trans (addAlias_changes _ hotherDigest' _),
      (addAlias_sameIndex _ _ _).trans (addAlias_sameIndex _ _ _), ?_, hkept ?_ ?_⟩
    · rw [handOver, hlookup]
      simp [hskip, htarget₁, htarget]
    · rw [addAlias_images_of_ne _ _ hotherOld.symm, hold₁]
    · intro k
      rw [addAlias_status, addAlias_status]
    · intro k hk hkname
      rwa [honly k hk hkname]

/-- **Specification of `resolveDuplicate` for a new target.** The aliases of the old image that point
to it are handed over, no other image changes what it is an alias of, and the new image is found under
the digest. -/
theorem resolveDuplicate_of_target (hpool : Pool base) (hc : Consistent base c)
    (hrefers : Refers base c) (hnew : new < base.size) (hold : old < base.size) (hne : new ≠ old)
    (hdigest : (base new).digest = (base old).digest)
    (hpossible : (base new).isPossibleAlias = false) :
    ∃ c' names, resolveDuplicate order title new old c = .ok c' ∧ Consistent base c' ∧
      Changes base (base new).digest c c' ∧
      c'.byDigest = Function.update c.byDigest (base new).digest (some new) ∧
      c'.unresolvedAliases = c.unresolvedAliases ∧
      (∀ name, name ∈ names ↔ name ∈ (c.images old).aliases) ∧
      HandedOver base new (base old).tag names c c' := by
  have htag : (base new).tag ≠ (base old).tag := fun h ↦ hne (hpool.tag_inj new hnew old hold h)
  obtain ⟨c₁, hc₁eq⟩ : ∃ c₁, c₁ = c.addAlias new (base old).tag := ⟨_, rfl⟩
  have hc₁ : Consistent base c₁ := hc₁eq ▸ hc.addAlias hold hne.symm rfl hdigest.symm
  have hchanges₁ : Changes base (base new).digest c c₁ := hc₁eq ▸ addAlias_changes c rfl _
  have hold₁ : c₁.images old = c.images old := hc₁eq ▸ addAlias_images_of_ne c _ hne.symm
  have hstatus₁ : ∀ k, (c₁.images k).status = (c.images k).status := fun k ↦ by
    rw [hc₁eq, addAlias_status]
  let P : List String → RSPImageCollection → Prop := fun done c₂ ↦ Consistent base c₂ ∧
    Changes base (base new).digest c c₂ ∧ SameIndex c c₂ ∧ c₂.images old = c.images old ∧
    HandedOver base new (base old).tag done c c₂
  have hbody : ∀ done name rest c₂, order.toList (c.images old).aliases = done ++ name :: rest →
      P done c₂ → ∃ c₃, handOver title new (base new).tag (base old).tag name c₂ = .ok c₃ ∧
        P (done ++ [name]) c₃ := by
    rintro done name rest c₂ hnames ⟨hc₂, hchanges₂, hindex₂, hold₂, hhanded⟩
    have hname : name ∈ (c₂.images old).aliases := by
      rw [hold₂, ← order.mem_toList, hnames]
      simp
    have hrefers₂ : Refers base c₂ := by
      intro name k hk
      rw [hindex₂.collection] at hk
      exact hrefers name k hk
    obtain ⟨c₃, hc₃eq, hc₃, hchanges₃, hindex₃, hold₃, hhanded₃⟩ :=
      handOver_spec title hpool hc₂ hrefers₂ hnew hold hne hdigest hpossible hname
    exact ⟨c₃, hc₃eq, hc₃, hchanges₂.trans hchanges₃, hindex₂.trans hindex₃, hold₃.trans hold₂,
      hhanded.trans hhanded₃ htag hchanges₃.evolves hindex₂.collection⟩
  obtain ⟨c₂, hloop, hc₂, hchanges₂, hindex₂, hold₂, hhanded⟩ := forAliases_spec old
    (c.images old).aliases.card _ P _ hbody
    (by
      rintro _ c₂ ⟨-, -, -, hold₂, -⟩
      rw [hold₂])
    ⟨hc₁, hchanges₁, hc₁eq ▸ addAlias_sameIndex _ _ _, hold₁, .of_status hstatus₁⟩
  have hc₃ := hc₂.addAlias hnew hne rfl hdigest
  have hchanges₃ := hchanges₂.trans (addAlias_changes c₂ hdigest.symm (base new).tag)
  refine ⟨(c₂.addAlias old (base new).tag).setByDigest (base new).digest new, _, ?_,
    ⟨hc₃.evolves, hc₃.alias_mem, hc₃.type_eq, hc₃.architecture⟩,
    ⟨hchanges₃.evolves, hchanges₃.images, ?_, hchanges₃.unresolved, hchanges₃.collection⟩, ?_,
    hindex₂.unresolved, fun name ↦ order.mem_toList _ _, ?_⟩
  · rw [resolveDuplicate, if_neg (by simp [hc.digest, hdigest]), if_neg (by simp [hc.possible, hpossible])]
    simp only [hc.tag, hc.digest, ← hc₁eq, hold₁, hloop]
    rfl
  · intro e he
    show Function.update _ _ _ e = _
    rw [Function.update_of_ne he]
    exact hchanges₃.byDigest e he
  · show Function.update _ _ _ = _
    rw [show (c₂.addAlias old (base new).tag).byDigest = c.byDigest from hindex₂.byDigest]
  · have hlast : HandedOver base new (base old).tag [] c₂
        ((c₂.addAlias old (base new).tag).setByDigest (base new).digest new) :=
      ⟨fun k ↦ Or.inl (addAlias_status c₂ old k _), by simp⟩
    simpa using hhanded.trans hlast htag (fun i ↦ addAlias_evolves c₂ old i _) hindex₂.collection

end RSPImageCollection

end Nublado.Images
