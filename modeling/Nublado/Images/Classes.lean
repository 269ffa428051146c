import Nublado.Images.Indexing

/-!
# Digest classes

What the constructor makes of the images of one digest, in full: which image is found under the digest,
which tags each image lists, and what becomes of every other field.

* `Adds` describes an operation that only makes images list more tags, by the pairs that it adds.
* `resolveDuplicate_of_alias_eq` and `resolveDuplicate_of_target_eq` say exactly what `resolveDuplicate`
  does to a possible alias and to a target that was just built.
* `Knows` is the outcome in terms of the order in which images are indexed, targets before possible
  aliases: the first image of a digest knows all others, and of two others that are not first one knows
  the other only if a possible alias is among them. `Knows.append` says which pairs the next image adds.
-/

namespace Nublado.Images

namespace RSPImage

/-- What resolving an image makes of it, the set of its aliases apart. -/
def resolved (title : String → String) (image target : RSPImage) : RSPImage :=
  let image := { image with
    imageType := .alias
    aliasTarget := some target.tag
    cycle := target.cycle
    architecture := image.architecture.or target.architecture
    date := image.date.or target.date }
  { image with displayName := image.aliasDisplayName title target }

/-- The aliases of the two images do not matter. -/
theorem resolved_aliases (title : String → String) (image target : RSPImage)
    (aliases aliases' : Finset String) :
    resolved title { image with aliases } { target with aliases := aliases' } =
      { resolved title image target with aliases } := rfl

/-- Resolving an image again changes nothing. -/
theorem resolved_resolved (title : String → String) (image target : RSPImage) :
    resolved title (resolved title image target) target = resolved title image target := by
  have harchitecture : (image.architecture.or target.architecture).or target.architecture =
      image.architecture.or target.architecture := by
    rcases image.architecture with _ | _ <;> rcases target.architecture with _ | _ <;> rfl
  have hdate : (image.date.or target.date).or target.date = image.date.or target.date := by
    rcases image.date with _ | _ <;> rcases target.date with _ | _ <;> rfl
  simp only [resolved, aliasDisplayName, harchitecture, hdate]

end RSPImage

namespace RSPImageCollection

variable {c c' c'' : RSPImageCollection} {R R' : ℕ → String → Prop} {i j : ℕ}

/-! ### Adding aliases -/

/-- **Only aliases are added**: the image `x` lists the tag `name` as well exactly if `R x name`. -/
structure Adds (R : ℕ → String → Prop) (c c' : RSPImageCollection) : Prop where
  image : ∀ x, c'.images x = { c.images x with aliases := (c'.images x).aliases }
  mem : ∀ x name, name ∈ (c'.images x).aliases ↔ name ∈ (c.images x).aliases ∨ R x name
  size : c'.images.size = c.images.size

theorem Adds.refl (c : RSPImageCollection) : Adds (fun _ _ ↦ False) c c :=
  ⟨fun _ ↦ rfl, by simp, rfl⟩

theorem Adds.trans (h : Adds R c c') (h' : Adds R' c' c'') :
    Adds (fun x name ↦ R x name ∨ R' x name) c c'' where
  image x := by
    rw [h'.image x, h.image x]
  mem x name := by
    rw [h'.mem, h.mem, or_assoc]
  size := h'.size.trans h.size

theorem Adds.congr (h : Adds R c c') (hR : ∀ x name, R x name ↔ R' x name) : Adds R' c c' :=
  ⟨h.image, fun x name ↦ (h.mem x name).trans (or_congr_right (hR x name)), h.size⟩

theorem addAlias_adds (c : RSPImageCollection) (i : ℕ) (name : String) :
    Adds (fun x other ↦ x = i ∧ other = name) c (c.addAlias i name) where
  image x := addAlias_images c i x name
  mem x other := by
    rw [addAlias_aliases]
    split <;> simp [*, or_comm]
  size := rfl

/-- An image that gets no new alias does not change. -/
theorem Adds.images_eq (h : Adds R c c') {x : ℕ}
    (hR : ∀ name, R x name → name ∈ (c.images x).aliases) : c'.images x = c.images x := by
  have haliases : (c'.images x).aliases = (c.images x).aliases := by
    ext name
    rw [h.mem]
    exact or_iff_left_of_imp (hR name)
  rw [h.image, haliases]

/-! ### Resolving duplicates -/

/-- **Listing a new alias under the aliases of the old image**, where the old image itself is not found
under one of them. -/
theorem forAliases_listUnder (old size : ℕ) (newTag : String) (names : List String) :
    ∀ c : RSPImageCollection, (c.images old).aliases.card = size →
    (∀ name ∈ names, c.collection.tagForTagName name ≠ some old) →
    ∃ c', forAliases old size (listUnder newTag) names c = .ok c' ∧ SameIndex c c' ∧
      Adds (fun x other ↦ other = newTag ∧ ∃ name ∈ names, name ≠ newTag ∧
        c.collection.tagForTagName name = some x) c c' := by
  induction names with
  | nil =>
    intro c hsize _
    exact ⟨c, by rw [forAliases, if_neg (by simp [hsize])], .refl c, (Adds.refl c).congr (by simp)⟩
  | cons name names ih =>
    intro c hsize hold
    obtain ⟨c₁, hstep, hindex, hadds⟩ : ∃ c₁, listUnder newTag name c = .ok c₁ ∧ SameIndex c c₁ ∧
        Adds (fun x other ↦ other = newTag ∧ name ≠ newTag ∧
          c.collection.tagForTagName name = some x) c c₁ := by
      rcases hlookup : c.collection.tagForTagName name with _ | other
      · exact ⟨c, by rw [listUnder, hlookup], .refl c, (Adds.refl c).congr (by simp)⟩
      rcases eq_or_ne name newTag with rfl | hne
      · exact ⟨c, by simp [listUnder, hlookup], .refl c, (Adds.refl c).congr (by simp)⟩
      · refine ⟨c.addAlias other newTag, by simp [listUnder, hlookup, hne],
          addAlias_sameIndex c other newTag, (addAlias_adds c other newTag).congr fun x n ↦ ?_⟩
        simp [hne, and_comm, eq_comm]
    have hsize₁ : (c₁.images old).aliases.card = size := by
      rw [hadds.images_eq fun n h ↦ absurd h.2.2 (hold name List.mem_cons_self), hsize]
    obtain ⟨c₂, hrest, hindex₂, hadds₂⟩ := ih c₁ hsize₁ fun n hn ↦ by
      rw [hindex.collection]
      exact hold n (List.mem_cons_of_mem _ hn)
    refine ⟨c₂, ?_, hindex.trans hindex₂, (hadds.trans hadds₂).congr fun x n ↦ ?_⟩
    · rw [forAliases, if_neg (by simp [hsize])]
      show (listUnder newTag name c >>= _) = _
      rw [hstep]
      exact hrest
    · rw [hindex.collection]
      simp only [List.mem_cons, exists_eq_or_imp]
      tauto

variable (order : SetOrder) (title : String → String) {new old : ℕ}

/-- What the old image makes of a possible alias, the set of its aliases apart. -/
def marked (c : RSPImageCollection) (new old : ℕ) : RSPImage :=
  if (c.images old).isPossibleAlias then c.images new
  else (c.images new).resolved title (c.images old)

/-- **Marking an alias, exactly.** A possible alias lists the tag of the old image and the other way
round; if the old image is not a possible alias, the new one is resolved and lists the aliases of the
old one instead of its tag. -/
theorem markAlias_eq (hne : new ≠ old) (hpossible : (c.images new).isPossibleAlias = true) :
    ∃ c', markAlias title new old c = .ok c' ∧ c'.byDigest = c.byDigest ∧
      c'.collection = c.collection ∧ c'.images.size = c.images.size ∧
      (∀ x, c'.images x = { (if x = new then marked title c new old else c.images x) with
        aliases := (c'.images x).aliases }) ∧
      ∀ x name, name ∈ (c'.images x).aliases ↔ name ∈ (c.images x).aliases ∨
        x = old ∧ name = (c.images new).tag ∨
        x = new ∧ (if (c.images old).isPossibleAlias then name = (c.images old).tag
          else name ∈ (c.images old).aliases ∧ name ≠ (c.images new).tag) := by
  rcases hold : (c.images old).isPossibleAlias with _ | _
  · obtain ⟨c', hc'⟩ : ∃ c', markAlias title new old c = .ok c' := by
      rw [markAlias, if_neg (by simp [hold]), resolveAlias, if_neg (by simp [hpossible])]
      exact ⟨_, rfl⟩
    have heq := hc'
    rw [markAlias, if_neg (by simp [hold]), resolveAlias, if_neg (by simp [hpossible])] at heq
    obtain rfl := Except.ok.inj heq
    refine ⟨_, hc', rfl, rfl, rfl, fun x ↦ ?_, fun x name ↦ ?_⟩
    · rcases eq_or_ne x new with rfl | hx
      · simp [addAlias, marked, hold, hne, hne.symm, RSPImage.resolved, RSPImage.aliasDisplayName]
      rcases eq_or_ne x old with rfl | hx'
      · simp [addAlias, hx]
      · simp [addAlias, hx, hx']
    · rcases eq_or_ne x new with rfl | hx
      · simp [addAlias, hne, and_comm]
      rcases eq_or_ne x old with rfl | hx'
      · simp [addAlias, hx, or_comm]
      · simp [addAlias, hx, hx']
  · have hadds := (addAlias_adds c new (c.images old).tag).trans
      (addAlias_adds _ old (c.images new).tag)
    have hmark : markAlias title new old c = .ok (((c.addAlias new (c.images old).tag).addAlias old
        (c.images new).tag).appendUnresolved (c.images new).digest new) := by
      rw [markAlias, if_pos hold]
    refine ⟨_, hmark, rfl, rfl, rfl, fun x ↦ ?_, fun x name ↦ ?_⟩
    · have hmarked : (if x = new then marked title c new old else c.images x) = c.images x := by
        rw [marked, if_pos hold]
        split
        · next hx => rw [hx]
        · rfl
      rw [hmarked]
      exact hadds.image x
    · rw [if_pos rfl]
      exact (hadds.mem x name).trans (or_congr_right or_comm)

/-- **Resolving a possible alias, exactly.** -/
theorem resolveDuplicate_of_alias_eq (hne : new ≠ old)
    (hdigest : (c.images new).digest = (c.images old).digest)
    (hpossible : (c.images new).isPossibleAlias = true)
    (hself : ∀ name ∈ (c.images old).aliases, c.collection.tagForTagName name ≠ some old)
    (hnew : c.collection.tagForTagName (c.images new).tag ≠ some old) :
    ∃ c', resolveDuplicate order title new old c = .ok c' ∧ c'.byDigest = c.byDigest ∧
      c'.collection = c.collection ∧ c'.images.size = c.images.size ∧
      (∀ x, c'.images x = { (if x = new then marked title c new old else c.images x) with
        aliases := (c'.images x).aliases }) ∧
      ∀ x name, name ∈ (c'.images x).aliases ↔ name ∈ (c.images x).aliases ∨
        x = old ∧ name = (c.images new).tag ∨
        (x = new ∧ if (c.images old).isPossibleAlias then name = (c.images old).tag
          else name ∈ (c.images old).aliases ∧ name ≠ (c.images new).tag) ∨
        name = (c.images new).tag ∧ ∃ other ∈ (c.images old).aliases, other ≠ (c.images new).tag ∧
          c.collection.tagForTagName other = some x := by
  obtain ⟨c₁, hmark, hby, hcollection, hsize, himages, hmem⟩ := markAlias_eq title hne hpossible
  have holdAliases : ∀ name, name ∈ (c₁.images old).aliases ↔
      name ∈ (c.images old).aliases ∨ name = (c.images new).tag := by
    intro name
    rw [hmem]
    simp [hne.symm]
  obtain ⟨c', hloop, hindex, hadds⟩ := forAliases_listUnder old (c₁.images old).aliases.card
    (c.images new).tag (order.toList (c₁.images old).aliases) c₁ rfl fun name hname ↦ by
      rw [order.mem_toList, holdAliases] at hname
      rw [hcollection]
      rcases hname with hname | rfl
      · exact hself name hname
      · exact hnew
  refine ⟨c', ?_, hindex.byDigest.trans hby, hindex.collection.trans hcollection,
    hadds.size.trans hsize, fun x ↦ ?_, fun x name ↦ ?_⟩
  · rw [resolveDuplicate, if_neg (by simp [hdigest]), if_pos hpossible, hmark]
    exact hloop
  · rw [hadds.image x, himages x]
  · rw [hadds.mem, hmem, hcollection, or_assoc, or_assoc]
    refine or_congr_right (or_congr_right (or_congr_right (and_congr_right fun _ ↦ ?_)))
    simp only [order.mem_toList, holdAliases]
    constructor
    · rintro ⟨other, hother | hother, hne, hlookup⟩
      · exact ⟨other, hother, hne, hlookup⟩
      · exact absurd hother hne
    · rintro ⟨other, hother, hne, hlookup⟩
      exact ⟨other, Or.inl hother, hne, hlookup⟩

/-- **Resolving a target that lists nothing, exactly.** The two images list each other. -/
theorem resolveDuplicate_of_target_eq (hne : new ≠ old)
    (hdigest : (c.images new).digest = (c.images old).digest)
    (hpossible : (c.images new).isPossibleAlias = false) (hempty : (c.images old).aliases = ∅) :
    ∃ c', resolveDuplicate order title new old c = .ok c' ∧
      c'.byDigest = Function.update c.byDigest (c.images new).digest (some new) ∧
      c'.collection = c.collection ∧
      Adds (fun x name ↦ x = new ∧ name = (c.images old).tag ∨ x = old ∧ name = (c.images new).tag)
        c c' := by
  have hold : ((c.addAlias new (c.images old).tag).images old).aliases = ∅ := by
    rw [addAlias_images_of_ne c _ hne.symm, hempty]
  have hadds := (addAlias_adds c new (c.images old).tag).trans
    (addAlias_adds _ old (c.images new).tag)
  refine ⟨((c.addAlias new (c.images old).tag).addAlias old (c.images new).tag).setByDigest
    (c.images new).digest new, ?_, rfl, rfl, ⟨hadds.image, hadds.mem, rfl⟩⟩
  have hlist : order.toList ∅ = [] := by
    refine List.eq_nil_iff_forall_not_mem.2 fun name hname ↦ ?_
    simp [order.mem_toList] at hname
  rw [resolveDuplicate, if_neg (by simp [hdigest]), if_neg (by simp [hpossible])]
  simp only [hold, hlist, forAliases]
  rfl

/-! ### The images of a digest -/

section Classes

variable {base : Heap RSPImage} {l : List ℕ} {d : String} {r x y : ℕ}

/-- The first of these images that has the digest. -/
def firstOf (base : Heap RSPImage) (l : List ℕ) (d : String) : Option ℕ :=
  l.find? fun x ↦ (base x).digest = d

/-- **Whether an image lists another one**, when images are indexed in this order, targets first. -/
def Knows (base : Heap RSPImage) (l : List ℕ) (x y : ℕ) : Prop :=
  x ∈ l ∧ y ∈ l ∧ x ≠ y ∧ (base x).digest = (base y).digest ∧
    ∃ r, firstOf base l (base x).digest = some r ∧
      (x = r ∨ if (base r).isPossibleAlias then y = r ∨ [x, y].Sublist l
        else if y = r then (base x).isPossibleAlias = false
        else (base x).isPossibleAlias ∨ (base y).isPossibleAlias)

/-- What an image is in the end, the set of its aliases apart: a possible alias of a digest whose first
image is a target is resolved to that. -/
def settled (title : String → String) (base : Heap RSPImage) (l : List ℕ) (x : ℕ) : RSPImage :=
  if x ∈ l ∧ (base x).isPossibleAlias then
    ((firstOf base l (base x).digest).filter fun r ↦ !(base r).isPossibleAlias).elim (base x)
      fun r ↦ (base x).resolved title (base r)
  else base x

theorem firstOf_mem (h : firstOf base l d = some r) : r ∈ l ∧ (base r).digest = d :=
  ⟨List.mem_of_find?_eq_some h, by simpa using List.find?_some h⟩

/-- A digest without a first image has none. -/
theorem firstOf_eq_none : firstOf base l d = none ↔ ∀ x ∈ l, (base x).digest ≠ d := by
  simp [firstOf]

/-- The first image of a digest knows all others. -/
theorem knows_first (hr : firstOf base l (base r).digest = some r) :
    Knows base l r y ↔ y ∈ l ∧ y ≠ r ∧ (base y).digest = (base r).digest := by
  have hrl := (firstOf_mem hr).1
  simp only [Knows, hrl, hr, true_and, ne_comm, eq_comm]
  simp

theorem firstOf_append (i : ℕ) : firstOf base (l ++ [i]) d =
    (firstOf base l d).or (if (base i).digest = d then some i else none) := by
  rw [firstOf, List.find?_append]
  congr 1
  by_cases hd : (base i).digest = d <;> simp [hd]

/-- The first image of a digest stays the first. -/
theorem firstOf_append_of_some (h : firstOf base l d = some r) (i : ℕ) :
    firstOf base (l ++ [i]) d = some r := by
  rw [firstOf_append, h]
  rfl

/-- The images that know each other because of the image `i`, where `r` is the first of its digest. -/
def KnowsNew (base : Heap RSPImage) (l : List ℕ) (i r x y : ℕ) : Prop :=
  y = i ∧ x ∈ l ∧ (base x).digest = (base i).digest ∧ (x = r ∨ (base i).isPossibleAlias = true) ∨
  x = i ∧ y ∈ l ∧ (base y).digest = (base i).digest ∧
    (y = r ↔ ((base i).isPossibleAlias = true → (base r).isPossibleAlias = true))

/-- A pair is in order in a longer list if it was, or if the second one is new. -/
theorem pair_sublist_concat : [x, y].Sublist (l ++ [i]) ↔ [x, y].Sublist l ∨ x ∈ l ∧ y = i := by
  constructor
  · intro h
    obtain ⟨front, back, hsplit, hfront, hback⟩ := List.sublist_append_iff.1 h
    rcases List.sublist_singleton.1 hback with rfl | rfl
    · rw [List.append_nil] at hsplit
      exact Or.inl (hsplit ▸ hfront)
    · have hpair : [x] ++ [y] = front ++ [i] := hsplit
      obtain ⟨rfl, hy⟩ := List.append_inj' hpair rfl
      exact Or.inr ⟨List.singleton_sublist.1 hfront, List.singleton_inj.1 hy⟩
  · rintro (h | ⟨hx, rfl⟩)
    · exact h.trans (List.sublist_append_left l [i])
    · exact (List.singleton_sublist.2 hx).append_right [y]

/-- Images that were there know each other as before. -/
theorem knows_append_old (hnew : i ∉ l) (hx : x ∈ l) (hy : y ∈ l) :
    Knows base (l ++ [i]) x y ↔ Knows base l x y := by
  have hyi : y ≠ i := fun h ↦ hnew (h ▸ hy)
  obtain ⟨r, hr⟩ : ∃ r, firstOf base l (base x).digest = some r := by
    rw [← Option.ne_none_iff_exists', ne_eq, firstOf_eq_none]
    exact fun h ↦ h x hx rfl
  simp [Knows, hx, hy, hr, firstOf_append_of_some hr, pair_sublist_concat, hyi]

/-- Whether an image that was there knows the new one. -/
theorem knows_append_new (hnew : i ∉ l)
    (horder : (base i).isPossibleAlias = false → ∀ x ∈ l, (base x).isPossibleAlias = false)
    (hx : x ∈ l) (hd : (base x).digest = (base i).digest)
    (hr : firstOf base l (base i).digest = some r) :
    Knows base (l ++ [i]) x i ↔ x = r ∨ (base i).isPossibleAlias = true := by
  have hxi : x ≠ i := fun h ↦ hnew (h ▸ hx)
  have hri : i ≠ r := fun h ↦ hnew (h ▸ (firstOf_mem hr).1)
  have hr' := firstOf_append_of_some hr i
  simp only [Knows, List.mem_append, hx, hd, hr', List.mem_singleton, pair_sublist_concat]
  rcases hi : (base i).isPossibleAlias with _ | _
  · simp [horder hi r (firstOf_mem hr).1, horder hi x hx, hxi, hri]
  · simp [hxi, hri]

/-- Whether the new image knows one that was there. -/
theorem knows_new_append (hnew : i ∉ l)
    (horder : (base i).isPossibleAlias = false → ∀ x ∈ l, (base x).isPossibleAlias = false)
    (hy : y ∈ l) (hd : (base y).digest = (base i).digest)
    (hr : firstOf base l (base i).digest = some r) :
    Knows base (l ++ [i]) i y ↔
      (y = r ↔ ((base i).isPossibleAlias = true → (base r).isPossibleAlias = true)) := by
  have hiy : i ≠ y := fun h ↦ hnew (h ▸ hy)
  have hir : i ≠ r := fun h ↦ hnew (h ▸ (firstOf_mem hr).1)
  have hsub : ¬ [i, y].Sublist l := fun h ↦ hnew (h.subset (by simp))
  have hr' := firstOf_append_of_some hr i
  simp only [Knows, List.mem_append, hy, hd, hr', List.mem_singleton, pair_sublist_concat]
  rcases hi : (base i).isPossibleAlias with _ | _
  · simp [horder hi r (firstOf_mem hr).1, horder hi y hy, hir, hiy]
  · rcases hpossible : (base r).isPossibleAlias with _ | _ <;>
      simp [hpossible, hsub, hnew, hir, hiy]

/-- **One image more.** The next image and those of its digest get to know each other. -/
theorem Knows.append (hnew : i ∉ l)
    (horder : (base i).isPossibleAlias = false → ∀ x ∈ l, (base x).isPossibleAlias = false) :
    Knows base (l ++ [i]) x y ↔ Knows base l x y ∨
      ∃ r, firstOf base l (base i).digest = some r ∧ KnowsNew base l i r x y := by
  have hfirst : ∀ {z}, z ∈ l → (base z).digest = (base i).digest →
      ∃ r, firstOf base l (base i).digest = some r := by
    intro z hz hd
    rw [← Option.ne_none_iff_exists', ne_eq, firstOf_eq_none]
    exact fun h ↦ h z hz hd
  constructor
  · intro h
    have ⟨hxmem, hymem, hne, hd, _⟩ := h
    rcases List.mem_append.1 hxmem with hx | hx <;> rcases List.mem_append.1 hymem with hy | hy
    · exact Or.inl ((knows_append_old hnew hx hy).1 h)
    · obtain rfl := List.mem_singleton.1 hy
      obtain ⟨r, hr⟩ := hfirst hx hd
      exact Or.inr ⟨r, hr, Or.inl ⟨rfl, hx, hd, (knows_append_new hnew horder hx hd hr).1 h⟩⟩
    · obtain rfl := List.mem_singleton.1 hx
      obtain ⟨r, hr⟩ := hfirst hy hd.symm
      exact Or.inr ⟨r, hr, Or.inr ⟨rfl, hy, hd.symm,
        (knows_new_append hnew horder hy hd.symm hr).1 h⟩⟩
    · exact absurd ((List.mem_singleton.1 hx).trans (List.mem_singleton.1 hy).symm) hne
  · rintro (h | ⟨r, hr, ⟨rfl, hx, hd, h⟩ | ⟨rfl, hy, hd, h⟩⟩)
    · exact (knows_append_old hnew h.1 h.2.1).2 h
    · exact (knows_append_new hnew horder hx hd hr).2 h
    · exact (knows_new_append hnew horder hy hd hr).2 h

/-- **The images of a collection are as indexing them in this order leaves them.** -/
structure Classified (title : String → String) (base : Heap RSPImage) (l : List ℕ)
    (c : RSPImageCollection) : Prop where
  byDigest : ∀ d, c.byDigest d = firstOf base l d
  image : ∀ x, c.images x = { settled title base l x with aliases := (c.images x).aliases }
  mem : ∀ x name, name ∈ (c.images x).aliases ↔ ∃ y, Knows base l x y ∧ (base y).tag = name
  size : c.images.size = base.size

variable {title}

/-- An image that is not indexed stays as it is. -/
theorem settled_of_not_mem (title : String → String) (hx : x ∉ l) :
    settled title base l x = base x := by
  rw [settled, if_neg fun h ↦ hx h.1]

/-- Images that are not new settle as before. -/
theorem settled_append (title : String → String) (hx : x ≠ i) :
    settled title base (l ++ [i]) x = settled title base l x := by
  have hmem : x ∈ l ++ [i] ↔ x ∈ l := by simp [hx]
  by_cases hxl : x ∈ l
  · obtain ⟨r, hr⟩ : ∃ r, firstOf base l (base x).digest = some r := by
      rw [← Option.ne_none_iff_exists', ne_eq, firstOf_eq_none]
      exact fun h ↦ h x hxl rfl
    simp only [settled, hmem, hr, firstOf_append_of_some hr i]
  · rw [settled_of_not_mem title hxl, settled_of_not_mem title fun h ↦ hxl (hmem.1 h)]

/-- Settling keeps what images are told apart by. -/
theorem settled_keeps (title : String → String) (base : Heap RSPImage) (l : List ℕ) (x : ℕ) :
    (settled title base l x).tag = (base x).tag ∧
      (settled title base l x).digest = (base x).digest ∧
      (settled title base l x).isPossibleAlias = (base x).isPossibleAlias := by
  rw [settled]
  split
  · next h =>
    rcases (firstOf base l (base x).digest).filter fun r ↦ !(base r).isPossibleAlias with _ | r
    · exact ⟨rfl, rfl, rfl⟩
    · exact ⟨rfl, rfl, h.2.symm⟩
  · exact ⟨rfl, rfl, rfl⟩

/-- What becomes of a new image. -/
theorem settled_new (title : String → String) (base : Heap RSPImage) (l : List ℕ) (i : ℕ) :
    settled title base (l ++ [i]) i =
      if (base i).isPossibleAlias then
        ((firstOf base l (base i).digest).filter fun r ↦ !(base r).isPossibleAlias).elim (base i)
          fun r ↦ (base i).resolved title (base r)
      else base i := by
  rcases hi : (base i).isPossibleAlias with _ | _
  · simp [settled, hi]
  · rw [settled, if_pos ⟨by simp, hi⟩, if_pos rfl, firstOf_append, if_pos rfl]
    rcases firstOf base l (base i).digest with _ | r
    · simp only [Option.none_or, Option.filter_some, hi]
      rfl
    · rfl

namespace Classified

theorem tag (h : Classified title base l c) (x : ℕ) : (c.images x).tag = (base x).tag := by
  rw [h.image]
  exact (settled_keeps title base l x).1

theorem digest (h : Classified title base l c) (x : ℕ) : (c.images x).digest = (base x).digest := by
  rw [h.image]
  exact (settled_keeps title base l x).2.1

theorem possible (h : Classified title base l c) (x : ℕ) :
    (c.images x).isPossibleAlias = (base x).isPossibleAlias := by
  rw [h.image]
  exact (settled_keeps title base l x).2.2

/-- An image that was not indexed yet is as it was built. -/
theorem image_of_not_mem (h : Classified title base l c) (hpool : Pool base) (hx : x ∉ l) :
    c.images x = base x := by
  have haliases : (c.images x).aliases = (base x).aliases := by
    rw [hpool.aliases_eq]
    refine Finset.eq_empty_of_forall_notMem fun name hname ↦ ?_
    obtain ⟨y, hy, -⟩ := (h.mem x name).1 hname
    exact hx hy.1
  rw [h.image, haliases, settled_of_not_mem title hx]

/-- The first image of a digest is indexed. -/
theorem index_first (h : Classified title base l c) (hnew : i ∉ l)
    (horder : (base i).isPossibleAlias = false → ∀ x ∈ l, (base x).isPossibleAlias = false)
    (hnone : firstOf base l (base i).digest = none) (himages : c'.images = c.images)
    (hby : c'.byDigest = Function.update c.byDigest (base i).digest (some i)) :
    Classified title base (l ++ [i]) c' where
  byDigest d := by
    rw [hby, firstOf_append]
    rcases eq_or_ne d (base i).digest with rfl | hd
    · rw [Function.update_self, hnone, if_pos rfl]
      rfl
    · rw [Function.update_of_ne hd, h.byDigest, if_neg hd.symm, Option.or_none]
  image x := by
    rw [himages]
    rcases eq_or_ne x i with rfl | hx
    · have hsettled : settled title base (l ++ [x]) x = settled title base l x := by
        rw [settled_new title base l x, hnone, settled_of_not_mem title hnew]
        exact ite_self _
      rw [hsettled]
      exact h.image x
    · rw [settled_append title hx]
      exact h.image x
  mem x name := by
    rw [himages, h.mem]
    refine exists_congr fun y ↦ and_congr_left fun _ ↦ ?_
    rw [Knows.append hnew horder, hnone]
    simp
  size := by
    rw [himages, h.size]

variable (order : SetOrder)

/-- **A target more**, of a digest with a target. -/
theorem index_target (h : Classified title base l c) (hpool : Pool base) (hnew : i ∉ l)
    (hpossible : (base i).isPossibleAlias = false)
    (htargets : ∀ x ∈ l, (base x).isPossibleAlias = false)
    (hr : firstOf base l (base i).digest = some r) :
    ∃ c', resolveDuplicate order title r i c = .ok c' ∧ c'.collection = c.collection ∧
      Classified title base (l ++ [i]) c' := by
  obtain ⟨hrl, hrd⟩ := firstOf_mem hr
  have hri : r ≠ i := fun h ↦ hnew (h ▸ hrl)
  obtain ⟨c', hok, hby, hcollection, hadds⟩ := resolveDuplicate_of_target_eq order title hri
    (by rw [h.digest, h.digest, hrd]) ((h.possible r).trans (htargets r hrl))
    (by rw [h.image_of_not_mem hpool hnew, hpool.aliases_eq])
  refine ⟨c', hok, hcollection, fun d ↦ ?_, fun x ↦ ?_, fun x name ↦ ?_, hadds.size.trans h.size⟩
  · rw [hby, h.digest, hrd]
    rcases eq_or_ne d (base i).digest with rfl | hd
    · rw [Function.update_self, firstOf_append_of_some hr]
    · rw [Function.update_of_ne hd, h.byDigest, firstOf_append, if_neg hd.symm, Option.or_none]
  · have hsettled : settled title base (l ++ [i]) x = settled title base l x := by
      rcases eq_or_ne x i with rfl | hx
      · rw [settled_new title base l x, hpossible, settled_of_not_mem title hnew]
        rfl
      · exact settled_append title hx
    rw [hsettled, hadds.image, h.image]
  · rw [hadds.mem, h.mem]
    simp only [Knows.append hnew fun _ ↦ htargets, or_and_right, exists_or]
    refine or_congr_right ?_
    rw [h.tag, h.tag]
    constructor
    · rintro (⟨rfl, rfl⟩ | ⟨rfl, rfl⟩)
      · exact ⟨i, ⟨x, hr, Or.inl ⟨rfl, hrl, hrd, Or.inl rfl⟩⟩, rfl⟩
      · exact ⟨r, ⟨r, hr, Or.inr ⟨rfl, hrl, hrd, by simp [hpossible]⟩⟩, rfl⟩
    · rintro ⟨y, ⟨r', hr', ⟨rfl, -, -, hxr⟩ | ⟨rfl, -, -, hyr⟩⟩, rfl⟩
      · obtain rfl := Option.some.inj (hr.symm.trans hr')
        exact Or.inl ⟨by simpa [hpossible] using hxr, rfl⟩
      · obtain rfl := Option.some.inj (hr.symm.trans hr')
        exact Or.inr ⟨rfl, congrArg (fun z ↦ (base z).tag) (hyr.2 (by simp [hpossible]))⟩

/-- **A possible alias more**, of a digest that has images. -/
theorem index_alias (h : Classified title base l c) (hpool : Pool base) (hi : i < base.size)
    (hnew : i ∉ l) (hpossible : (base i).isPossibleAlias = true) (hrefers : Refers base c)
    (hfinds : ∀ x ∈ l, c.collection.tagForTagName (base x).tag = some x)
    (hr : firstOf base l (base i).digest = some r) :
    ∃ c', resolveDuplicate order title i r c = .ok c' ∧ c'.byDigest = c.byDigest ∧
      c'.collection = c.collection ∧ Classified title base (l ++ [i]) c' := by
  obtain ⟨hrl, hrd⟩ := firstOf_mem hr
  have hir : i ≠ r := fun h ↦ hnew (h ▸ hrl)
  have htag : ∀ x ∈ l, (base x).tag ≠ (base i).tag := fun x hx heq ↦
    hnew (hpool.tag_inj x (hrefers _ x (hfinds x hx)).1 i hi heq ▸ hx)
  have hknows : ∀ name, name ∈ (c.images r).aliases ↔
      ∃ y ∈ l, y ≠ r ∧ (base y).digest = (base i).digest ∧ (base y).tag = name := by
    intro name
    rw [h.mem]
    refine exists_congr fun y ↦ ?_
    rw [knows_first (hrd ▸ hr), hrd]
    simp only [and_assoc]
  have hself : ∀ name ∈ (c.images r).aliases, c.collection.tagForTagName name ≠ some r := by
    intro name hname hlookup
    obtain ⟨y, hy, hyr, -, rfl⟩ := (hknows name).1 hname
    exact hyr (Option.some.inj ((hfinds y hy).symm.trans hlookup))
  obtain ⟨c', hok, hby, hcollection, hsize, himages, hmem⟩ := resolveDuplicate_of_alias_eq order
    title hir (by rw [h.digest, h.digest, hrd]) ((h.possible i).trans hpossible) hself fun hlookup ↦ by
      have := (hrefers _ r hlookup).2
      rw [h.tag] at this
      exact htag r hrl this
  refine ⟨c', hok, hby, hcollection, fun d ↦ ?_, fun x ↦ ?_, fun x name ↦ ?_, hsize.trans h.size⟩
  · rw [hby, h.byDigest, firstOf_append]
    rcases eq_or_ne (base i).digest d with rfl | hd
    · rw [hr]
      rfl
    · rw [if_neg hd, Option.or_none]
  · refine (himages x).trans ?_
    rcases eq_or_ne x i with rfl | hx
    · rw [if_pos rfl, marked, h.possible, settled_new title base l x, if_pos hpossible, hr,
        h.image_of_not_mem hpool hnew]
      rcases hrp : (base r).isPossibleAlias with _ | _
      · have hsettled : settled title base l r = base r := by simp [settled, hrp]
        rw [h.image r, hsettled]
        simp only [Option.filter_some, hrp]
        rfl
      · simp only [Option.filter_some, hrp]
        rfl
    · rw [if_neg hx, settled_append title hx, h.image x]
  · have horder : (base i).isPossibleAlias = false → ∀ x ∈ l, (base x).isPossibleAlias = false := by
      simp [hpossible]
    rw [hmem, h.mem, h.tag, h.tag, h.possible]
    simp only [Knows.append hnew horder, or_and_right, exists_or]
    refine or_congr_right ?_
    simp only [hknows]
    constructor
    · rintro (⟨rfl, rfl⟩ | ⟨rfl, hnames⟩ | ⟨rfl, other, ⟨y, hy, hyr, hyd, rfl⟩, -, hlookup⟩)
      · exact ⟨i, ⟨x, hr, Or.inl ⟨rfl, hrl, hrd, Or.inl rfl⟩⟩, rfl⟩
      · rcases hrp : (base r).isPossibleAlias with _ | _
        · rw [hrp, if_neg (by simp)] at hnames
          obtain ⟨⟨y, hy, hyr, hyd, rfl⟩, -⟩ := hnames
          exact ⟨y, ⟨r, hr, Or.inr ⟨rfl, hy, hyd, by simp [hyr, hpossible, hrp]⟩⟩, rfl⟩
        · rw [hrp, if_pos rfl] at hnames
          exact ⟨r, ⟨r, hr, Or.inr ⟨rfl, hrl, hrd, by simp [hrp]⟩⟩, hnames.symm⟩
      · obtain rfl := Option.some.inj ((hfinds y hy).symm.trans hlookup)
        exact ⟨i, ⟨r, hr, Or.inl ⟨rfl, hy, hyd, Or.inr hpossible⟩⟩, rfl⟩
    · rintro ⟨y, ⟨r', hr', ⟨rfl, hx, hxd, -⟩ | ⟨rfl, hy, hyd, hyr⟩⟩, rfl⟩
      · rcases eq_or_ne x r with rfl | hxr
        · exact Or.inl ⟨rfl, rfl⟩
        · exact Or.inr (Or.inr ⟨rfl, _, ⟨x, hx, hxr, hxd, rfl⟩, htag x hx, hfinds x hx⟩)
      · obtain rfl := Option.some.inj (hr.symm.trans hr')
        refine Or.inr (Or.inl ⟨rfl, ?_⟩)
        rcases hrp : (base r).isPossibleAlias with _ | _
        · rw [if_neg (by simp)]
          have hyr' : y ≠ r := by simpa [hpossible, hrp] using hyr
          exact ⟨⟨y, hy, hyr', hyd, rfl⟩, htag y hy⟩
        · rw [if_pos rfl]
          have hyr' : y = r := by simpa [hrp] using hyr
          rw [hyr']

end Classified

/-! ### The constructor -/

/-- The order in which images are indexed: targets first. -/
def indexOrder (base : Heap RSPImage) (m : List ℕ) : List ℕ :=
  (m.filter fun x ↦ !(base x).isPossibleAlias) ++ m.filter fun x ↦ (base x).isPossibleAlias

theorem mem_indexOrder {m : List ℕ} : x ∈ indexOrder base m ↔ x ∈ m := by
  rcases hx : (base x).isPossibleAlias with _ | _ <;> simp [indexOrder, hx]

theorem nodup_indexOrder {m : List ℕ} (h : m.Nodup) : (indexOrder base m).Nodup := by
  refine List.nodup_append.2 ⟨h.filter _, h.filter _, fun x hx y hy hxy ↦ ?_⟩
  have hx := (List.mem_filter.1 hx).2
  have hy := (List.mem_filter.1 hy).2
  simp [hxy, hy] at hx

variable (order : SetOrder) (title : String → String)

/-- **The first pass** indexes the targets. -/
theorem firstPass_classified (hpool : Pool base) (rest : List ℕ) : ∀ (l : List ℕ)
    (c : RSPImageCollection), Classified title base l c → (l ++ rest).Nodup →
    (∀ x ∈ l, (base x).isPossibleAlias = false) →
    ∃ c', firstPass order title rest c =
        .ok (rest.filter fun x ↦ (base x).isPossibleAlias, c') ∧ c'.collection = c.collection ∧
      Classified title base (l ++ rest.filter fun x ↦ !(base x).isPossibleAlias) c' := by
  induction rest with
  | nil =>
    intro l c h _ _
    exact ⟨c, rfl, rfl, by simpa using h⟩
  | cons i rest ih =>
    intro l c h hnodup htargets
    rcases hpossible : (base i).isPossibleAlias with _ | _
    · have hnew : i ∉ l := fun hmem ↦ (List.nodup_append.1 hnodup).2.2 i hmem i (by simp) rfl
      have htargets' : ∀ x ∈ l ++ [i], (base x).isPossibleAlias = false := by
        intro x hx
        rcases List.mem_append.1 hx with hx | hx
        · exact htargets x hx
        · rw [List.mem_singleton.1 hx, hpossible]
      obtain ⟨c₁, hstep, hcollection, h₁⟩ : ∃ c₁,
          firstPass order title (i :: rest) c = firstPass order title rest c₁ ∧
          c₁.collection = c.collection ∧ Classified title base (l ++ [i]) c₁ := by
        rcases hr : firstOf base l (base i).digest with _ | r
        · refine ⟨c.setByDigest (base i).digest i, ?_, rfl,
            h.index_first hnew (fun _ ↦ htargets) hr rfl rfl⟩
          simp [firstPass, h.possible, hpossible, h.digest, h.byDigest, hr]
        · obtain ⟨c₁, hok, hcollection, h₁⟩ :=
            h.index_target order hpool hnew hpossible htargets hr
          refine ⟨c₁, ?_, hcollection, h₁⟩
          simp only [firstPass, h.possible, hpossible, h.digest, h.byDigest, hr]
          rw [hok]
          rfl
      obtain ⟨c', hok, hcollection', h'⟩ := ih (l ++ [i]) c₁ h₁ (by simpa using hnodup) htargets'
      refine ⟨c', ?_, hcollection'.trans hcollection, ?_⟩
      · rw [hstep, hok, List.filter_cons_of_neg (by simp [hpossible])]
      · rw [List.filter_cons_of_pos (by simp [hpossible])]
        simpa using h'
    · have hsub : (l ++ rest).Sublist (l ++ i :: rest) :=
        (List.sublist_cons_self i rest).append_left l
      obtain ⟨c', hok, hcollection, h'⟩ := ih l c h (hnodup.sublist hsub) htargets
      refine ⟨c', ?_, hcollection, ?_⟩
      · rw [List.filter_cons_of_pos (p := fun x ↦ (base x).isPossibleAlias) hpossible, firstPass,
          if_pos ((h.possible i).trans hpossible), hok]
        rfl
      · rw [List.filter_cons_of_neg (by simp [hpossible])]
        exact h'

/-- **The second pass** indexes the possible aliases. -/
theorem secondPass_classified (hpool : Pool base) (rest : List ℕ) : ∀ (l : List ℕ)
    (c : RSPImageCollection), Classified title base l c → Refers base c → Finds base (l ++ rest) c →
    (∀ x ∈ l ++ rest, x < base.size) → (l ++ rest).Nodup →
    (∀ x ∈ rest, (base x).isPossibleAlias = true) →
    ∃ c', secondPass order title rest c = .ok c' ∧ c'.collection = c.collection ∧
      Classified title base (l ++ rest) c' := by
  induction rest with
  | nil =>
    intro l c h _ _ _ _ _
    exact ⟨c, rfl, rfl, by simpa using h⟩
  | cons i rest ih =>
    intro l c h hrefers hfinds hlt hnodup haliases
    have hpossible := haliases i (by simp)
    have hnew : i ∉ l := fun hmem ↦ (List.nodup_append.1 hnodup).2.2 i hmem i (by simp) rfl
    obtain ⟨c₁, hstep, hcollection, h₁⟩ : ∃ c₁,
        secondPass order title (i :: rest) c = secondPass order title rest c₁ ∧
        c₁.collection = c.collection ∧ Classified title base (l ++ [i]) c₁ := by
      rcases hr : firstOf base l (base i).digest with _ | r
      · refine ⟨(c.appendUnresolved (base i).digest i).setByDigest (base i).digest i, ?_, rfl,
          h.index_first hnew (fun hfalse ↦ by simp [hpossible] at hfalse) hr rfl rfl⟩
        simp [secondPass, h.digest, h.byDigest, hr]
      · obtain ⟨c₁, hok, -, hcollection, h₁⟩ := h.index_alias order hpool (hlt i (by simp)) hnew
          hpossible hrefers (fun x hx ↦ hfinds x (by simp [hx])) hr
        refine ⟨c₁, ?_, hcollection, h₁⟩
        simp only [secondPass, h.digest, h.byDigest, hr]
        rw [hok]
        rfl
    obtain ⟨c', hok, hcollection', h'⟩ := ih (l ++ [i]) c₁ h₁
      (fun name k hk ↦ hrefers name k (by rwa [hcollection] at hk))
      (fun x hx ↦ by
        rw [hcollection]
        exact hfinds x (by simpa using hx))
      (by simpa using hlt) (by simpa using hnodup) fun x hx ↦ haliases x (by simp [hx])
    exact ⟨c', hstep.trans hok, hcollection'.trans hcollection, by simpa using h'⟩

/-- **The constructor, exactly.** It raises nothing and classifies the images that it keeps. -/
theorem init_classified [Ord Version] (hpool : Pool base) (images : List ℕ)
    (hlt : ∀ x ∈ images, x < base.size) (hnodup : images.Nodup) (cycle : Option ℕ) :
    ∃ c, init order title base images cycle = .ok c ∧
      let m := images.filter fun i ↦ cycle = none ∨ (base i).cycle = cycle
      Classified title base (indexOrder base m) c ∧
        RSPImageTagCollection.init c.view m = some c.collection := by
  obtain ⟨m, hm⟩ : ∃ m, m = images.filter fun i ↦ cycle = none ∨ (base i).cycle = cycle := ⟨_, rfl⟩
  have hmlt : ∀ x ∈ m, x < base.size := fun x hx ↦ hlt x (by
    rw [hm] at hx
    exact List.mem_of_mem_filter hx)
  have hmnodup : m.Nodup := hm ▸ hnodup.filter _
  have hc : Consistent base ⟨base, fun _ ↦ none, fun _ ↦ [], .empty⟩ :=
    ⟨fun _ ↦ .refl _, by simp [hpool.aliases_eq], by simp [hpool.target_eq], fun h ↦ h⟩
  obtain ⟨collection, hreindex, -, hindexed⟩ :=
    reindexTags_spec m ⟨base, fun _ ↦ none, fun _ ↦ [], .empty⟩
  obtain ⟨c₁, hc₁eq⟩ : ∃ c₁ : RSPImageCollection,
      c₁ = ⟨base, fun _ ↦ none, fun _ ↦ [], collection⟩ := ⟨_, rfl⟩
  have hc₁ : Consistent base c₁ := by
    rw [hc₁eq]
    exact ⟨hc.evolves, hc.alias_mem, hc.type_eq, hc.architecture⟩
  have hindexed₁ : RSPImageTagCollection.Indexed c₁.view c₁.collection m := by
    rw [hc₁eq]
    exact hindexed
  have h₁ : Classified title base [] c₁ := by
    rw [hc₁eq]
    refine ⟨fun _ ↦ rfl, fun x ↦ ?_, fun x name ↦ ?_, rfl⟩
    · rw [settled_of_not_mem title List.not_mem_nil]
    · simp [hpool.aliases_eq, Knows]
  -- The two passes.
  obtain ⟨c₂, hfirst, hcollection₂, h₂⟩ :=
    firstPass_classified order title hpool m [] c₁ h₁ (by simpa using hmnodup) (by simp)
  have hmem : ∀ x, x ∈ [] ++ (m.filter fun x ↦ !(base x).isPossibleAlias) ++
      m.filter (fun x ↦ (base x).isPossibleAlias) ↔ x ∈ m := fun x ↦ mem_indexOrder
  obtain ⟨c₃, hsecond, hcollection₃, h₃⟩ := secondPass_classified order title hpool
    (m.filter fun x ↦ (base x).isPossibleAlias) _ c₂ h₂
    (fun name k hk ↦ refers_of_indexed hc₁.tag hmlt hindexed₁ name k (by rwa [hcollection₂] at hk))
    (fun x hx ↦ by
      rw [hcollection₂]
      exact finds_of_indexed hpool hc₁.tag hmlt hindexed₁ x ((hmem x).1 hx))
    (fun x hx ↦ hmlt x ((hmem x).1 hx)) (nodup_indexOrder hmnodup)
    (fun x hx ↦ by simpa using (List.mem_filter.1 hx).2)
  obtain ⟨collection', hreindex', hinit', -⟩ := reindexTags_spec m c₃
  refine ⟨{ c₃ with collection := collection' }, ?_, ?_⟩
  · have hreindex₁ : reindexTags m ⟨base, fun _ ↦ none, fun _ ↦ [], .empty⟩ = .ok c₁ := by
      rw [hreindex, hc₁eq]
    simp only [init, replaceContents, ← hm]
    show (reindexTags m ⟨base, fun _ ↦ none, fun _ ↦ [], .empty⟩ >>= _) = _
    rw [hreindex₁]
    show (firstPass order title m c₁ >>= _) = _
    rw [hfirst]
    show (secondPass order title _ c₂ >>= _) = _
    rw [hsecond]
    exact hreindex'
  · rw [← hm]
    exact ⟨⟨h₃.byDigest, h₃.image, h₃.mem, h₃.size⟩, hinit'⟩

end Classes

end RSPImageCollection

end Nublado.Images
