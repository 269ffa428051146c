import Mathlib.Data.List.Sort
import Mathlib.Data.String.Basic
import Nublado.Images.Frame
import Nublado.Images.Properties.TagOrdering

/-!
# Adding an image

An image that is added to a collection should be found under its tag, every other tag should still
find an image of the same digest, and every tag should be listed once (`AddsCleanly`).

* `adds_cleanly_iff`: in a run that kept to it so far, the next addition is clean exactly if the image
  `Fits`. Where the addition only sorts the image in, its tag has to be new, since the image is listed
  even if its tag is there already. Where it reindexes the collection, the images for a specific
  architecture are lost, because the collection is rebuilt from the images that it shows.
* `Loaded` is the invariant under which no method raises: no image lists its own tag as an alias, and
  only an alias has a target. An image that is added a second time breaks it: it is resolved against
  itself, and the set of its aliases then grows while the next image of its digest iterates over it.
* Unlike the account of the aliases, this says nothing of where the images come from: they may have
  aliases from other collections that share them.
-/

namespace Nublado.Images

namespace RSPImage

/-- **A well-formed image** does not list itself as an alias, and has a target only if it is an
alias. -/
structure WellFormed (image : RSPImage) : Prop where
  not_own_alias : image.tag ∉ image.aliases
  alias_of_target : image.aliasTarget ≠ none → image.imageType = .alias

/-- Images as they are made are well-formed. -/
theorem wellFormed_fromTag (tag : RSPImageTag) (registry repository digest : String)
    (size : Option ℕ) : (fromTag tag registry repository digest size).WellFormed :=
  ⟨Finset.notMem_empty _, fun h ↦ absurd rfl h⟩

/-- An alias that has a target may be an alias. -/
theorem WellFormed.possible {image : RSPImage} (h : image.WellFormed) {target : String}
    (htarget : image.aliasTarget = some target) : image.isPossibleAlias = true := by
  rw [isPossibleAlias, h.alias_of_target (by simp [htarget])]
  rfl

end RSPImage

namespace RSPImageCollection

variable {c c' c'' : RSPImageCollection} {i j : ℕ} {order : SetOrder} {title : String → String}
  {new old : ℕ}

/-! ### Why no method raises -/

/-- **The invariant under which no method raises**: the images are well-formed, and what the tag
collection finds under a name has that name. -/
structure Loaded (c : RSPImageCollection) : Prop where
  wellFormed : ∀ k, (c.images k).WellFormed
  refers : ∀ name k, c.collection.tagForTagName name = some k → (c.images k).tag = name

/-- The types of the images other than `new` stay the same, and so does the index by digest. -/
structure Steady (new : ℕ) (c c' : RSPImageCollection) : Prop where
  loaded : Loaded c'
  keeps : Keeps c c'
  byDigest : c'.byDigest = c.byDigest
  type_eq : ∀ k ≠ new, (c'.images k).imageType = (c.images k).imageType

theorem Steady.refl (h : Loaded c) (new : ℕ) : Steady new c c := ⟨h, .refl c, rfl, fun _ _ ↦ rfl⟩

theorem Steady.trans (h : Steady new c c') (h' : Steady new c' c'') : Steady new c c'' where
  loaded := h'.loaded
  keeps := h.keeps.trans h'.keeps
  byDigest := h'.byDigest.trans h.byDigest
  type_eq k hk := (h'.type_eq k hk).trans (h.type_eq k hk)

/-- An image may list any tag but its own. -/
theorem addAlias_steady (h : Loaded c) (i : ℕ) (name : String) (hne : (c.images i).tag ≠ name)
    (new : ℕ) : Steady new c (c.addAlias i name) := by
  have htype : ∀ k, ((c.addAlias i name).images k).imageType = (c.images k).imageType :=
    fun k ↦ congrArg Prod.fst (addAlias_status c i k name)
  have htarget : ∀ k, ((c.addAlias i name).images k).aliasTarget = (c.images k).aliasTarget :=
    fun k ↦ congrArg Prod.snd (addAlias_status c i k name)
  have hkeeps := (addAlias_touches c i name).toKeeps
  refine ⟨⟨fun k ↦ ⟨?_, ?_⟩, ?_⟩, hkeeps, rfl, fun k _ ↦ htype k⟩
  · rw [hkeeps.tag, addAlias_aliases]
    split
    · next hki =>
      subst hki
      rw [Finset.mem_insert, not_or]
      exact ⟨hne, (h.wellFormed k).not_own_alias⟩
    · exact (h.wellFormed k).not_own_alias
  · rw [htype, htarget]
    exact (h.wellFormed k).alias_of_target
  · intro name' k hk
    rw [hkeeps.tag]
    exact h.refers name' k hk

/-- **A possible alias can be resolved** to an image of another tag. -/
theorem resolveAlias_loaded (title : String → String) (h : Loaded c)
    (hpossible : (c.images i).isPossibleAlias = true)
    (hne : (c.images i).tag ≠ (c.images j).tag) :
    ∃ c', resolveAlias title i j c = .ok c' ∧ Steady i c c' ∧ (c'.images i).imageType = .alias ∧
      ∀ k, k ≠ i → k ≠ j → c'.images k = c.images k := by
  have hij : i ≠ j := fun hij ↦ hne (by rw [hij])
  obtain ⟨c', hc'⟩ : ∃ c', resolveAlias title i j c = .ok c' := by
    rw [resolveAlias, if_neg (by simp [hpossible])]
    exact ⟨_, rfl⟩
  have hkeeps := (resolveAlias_touches hc').toKeeps
  rw [resolveAlias, if_neg (by simp [hpossible])] at hc'
  have hsame : ∀ k, k ≠ i → k ≠ j → c'.images k = c.images k := by
    intro k hki hkj
    obtain rfl := Except.ok.inj hc'
    simp [RSPImageCollection.addAlias, hki, hkj]
  have htarget : c'.images j = { c.images j with
      aliases := insert (c.images i).tag (c.images j).aliases } := by
    obtain rfl := Except.ok.inj hc'
    simp [RSPImageCollection.addAlias, hij.symm]
  have halias : (c'.images i).imageType = .alias ∧ (c'.images i).aliases =
      (c.images i).aliases ∪ (c.images j).aliases.erase (c.images i).tag := by
    obtain rfl := Except.ok.inj hc'
    simp [RSPImageCollection.addAlias, hij]
  have hbyDigest : c'.byDigest = c.byDigest := by
    obtain rfl := Except.ok.inj hc'
    rfl
  refine ⟨c', by rw [resolveAlias, if_neg (by simp [hpossible])]; exact hc',
    ⟨⟨fun k ↦ ?_, fun name k hk ↦ ?_⟩, hkeeps, hbyDigest, fun k hki ↦ ?_⟩, halias.1, hsame⟩
  · rcases eq_or_ne k i with rfl | hki
    · refine ⟨?_, fun _ ↦ halias.1⟩
      rw [hkeeps.tag, halias.2, Finset.mem_union, not_or]
      exact ⟨(h.wellFormed k).not_own_alias, Finset.notMem_erase _ _⟩
    rcases eq_or_ne k j with rfl | hkj
    · rw [htarget]
      refine ⟨?_, (h.wellFormed k).alias_of_target⟩
      rw [Finset.mem_insert, not_or]
      exact ⟨hne.symm, (h.wellFormed k).not_own_alias⟩
    · rw [hsame k hki hkj]
      exact h.wellFormed k
  · rw [hkeeps.tag]
    rw [hkeeps.collection] at hk
    exact h.refers name k hk
  · rcases eq_or_ne k j with rfl | hkj
    · rw [htarget]
    · rw [hsame k hki hkj]

/-- Marking the new image and the old one as aliases of each other. -/
theorem markAlias_loaded (title : String → String) (h : Loaded c)
    (hpossible : (c.images new).isPossibleAlias = true)
    (hne : (c.images new).tag ≠ (c.images old).tag) :
    ∃ c', markAlias title new old c = .ok c' ∧ Steady new c c' := by
  rcases hold : (c.images old).isPossibleAlias with _ | _
  · obtain ⟨c', hok, hsteady, -⟩ := resolveAlias_loaded title h hpossible hne
    exact ⟨c', by simpa [markAlias, hold] using hok, hsteady⟩
  · have hadd := addAlias_steady h new (c.images old).tag hne new
    have hadds := hadd.trans (addAlias_steady hadd.loaded old (c.images new).tag
      (by rw [hadd.keeps.tag]; exact hne.symm) new)
    refine ⟨((c.addAlias new (c.images old).tag).addAlias old (c.images new).tag).appendUnresolved
      (c.images new).digest new, by rw [markAlias, if_pos hold], ⟨hadds.loaded.wellFormed, hadds.loaded.refers⟩,
      ⟨hadds.keeps.tag, hadds.keeps.digest, hadds.keeps.aliases, hadds.keeps.collection⟩, rfl, hadds.type_eq⟩

/-- What is found under an alias of an image is another image. -/
theorem Loaded.other_ne {name : String} {other : ℕ} (h : Loaded c)
    (hname : name ∈ (c.images old).aliases)
    (hother : c.collection.tagForTagName name = some other) : other ≠ old := by
  rintro rfl
  rw [← h.refers name other hother] at hname
  exact (h.wellFormed other).not_own_alias hname

theorem listUnder_loaded {name : String} (h : Loaded c) (hname : name ∈ (c.images old).aliases)
    (new : ℕ) : ∃ c', listUnder (c.images new).tag name c = .ok c' ∧ Steady new c c' ∧
      c'.images old = c.images old := by
  rcases hlookup : c.collection.tagForTagName name with _ | other
  · exact ⟨c, by rw [listUnder, hlookup], .refl h new, rfl⟩
  rcases eq_or_ne name (c.images new).tag with hskip | hskip
  · exact ⟨c, by rw [listUnder, hlookup]; exact congrArg _ (if_pos hskip), .refl h new, rfl⟩
  · refine ⟨c.addAlias other (c.images new).tag, by simp [listUnder, hlookup, hskip],
      addAlias_steady h other _ (by rwa [h.refers name other hlookup]) new, ?_⟩
    exact addAlias_images_of_ne c _ (h.other_ne hname hlookup).symm

theorem handOver_loaded (title : String → String) (new old : ℕ) {name : String} (h : Loaded c)
    (hne : (c.images new).tag ≠ (c.images old).tag) (hname : name ∈ (c.images old).aliases) :
    ∃ c', handOver title new (c.images new).tag (c.images old).tag name c = .ok c' ∧
      Steady new c c' ∧ c'.images old = c.images old := by
  rcases hlookup : c.collection.tagForTagName name with _ | other
  · exact ⟨c, by rw [handOver, hlookup], .refl h new, rfl⟩
  have hotherOld := h.other_ne hname hlookup
  have hotherTag := h.refers name other hlookup
  rcases eq_or_ne name (c.images new).tag with hskip | hskip
  · exact ⟨c, by rw [handOver, hlookup]; exact if_pos hskip, .refl h new, rfl⟩
  have hnewOld : old ≠ new := fun hold ↦ hne (by rw [hold])
  have hadd := addAlias_steady h new name hskip.symm new
  have hold₁ := addAlias_images_of_ne c name hnewOld
  by_cases htarget : ((c.addAlias new name).images other).aliasTarget = some (c.images old).tag
  · -- The other image is an alias of the old one: it becomes one of the new image.
    have hotherNe : ((c.addAlias new name).images other).tag ≠
        ((c.addAlias new name).images new).tag := by
      rw [hadd.keeps.tag, hadd.keeps.tag, hotherTag]
      exact hskip
    obtain ⟨c₂, hok, hresolve, htype, hsame⟩ := resolveAlias_loaded title hadd.loaded
      ((hadd.loaded.wellFormed other).possible htarget) hotherNe
    have hresolve' : Steady new (c.addAlias new name) c₂ := by
      refine ⟨hresolve.loaded, hresolve.keeps, hresolve.byDigest, fun k _ ↦ ?_⟩
      rcases eq_or_ne k other with rfl | hk
      · rw [htype, (hadd.loaded.wellFormed k).alias_of_target (by simp [htarget])]
      · exact hresolve.type_eq k hk
    have hlist := addAlias_steady hresolve.loaded other (c.images old).tag (by
      rw [hresolve.keeps.tag, hadd.keeps.tag, hotherTag]
      rintro rfl
      exact (h.wellFormed old).not_own_alias hname) new
    refine ⟨c₂.addAlias other (c.images old).tag, ?_, (hadd.trans hresolve').trans hlist, ?_⟩
    · rw [handOver, hlookup]
      simp only [if_neg hskip, if_pos htarget, hok]
      rfl
    · rw [addAlias_images_of_ne _ _ hotherOld.symm, hsame old hotherOld.symm hnewOld, hold₁]
  · have hlist := addAlias_steady hadd.loaded other (c.images new).tag (by
      rw [hadd.keeps.tag, hotherTag]
      exact hskip) new
    refine ⟨(c.addAlias new name).addAlias other (c.images new).tag, ?_, hadd.trans hlist, ?_⟩
    · rw [handOver, hlookup]
      simp only [if_neg hskip, if_neg htarget]
    · rw [addAlias_images_of_ne _ _ hotherOld.symm, hold₁]

/-- A loop over the aliases of the old image succeeds if its body does and leaves that image alone. -/
theorem forAliases_steady (order : SetOrder) (new old : ℕ) (h : Loaded c)
    (body : String → RSPImageCollection → Except ImageError RSPImageCollection)
    (hbody : ∀ name c', Steady new c c' → name ∈ (c'.images old).aliases →
      ∃ c'', body name c' = .ok c'' ∧ Steady new c' c'' ∧ c''.images old = c'.images old) :
    ∃ c', forAliases old (c.images old).aliases.card body (order.toList (c.images old).aliases) c =
      .ok c' ∧ Steady new c c' ∧ c'.images old = c.images old := by
  refine forAliases_spec old _ body (fun _ c' ↦ Steady new c c' ∧ c'.images old = c.images old) _
    ?_ ?_ ⟨.refl h new, rfl⟩
  · rintro done name rest c₁ hnames ⟨hsteady, hold⟩
    have hname : name ∈ (c₁.images old).aliases := by
      rw [hold, ← order.mem_toList, hnames]
      simp
    obtain ⟨c₂, hok, hsteady₂, hold₂⟩ := hbody name c₁ hsteady hname
    exact ⟨c₂, hok, hsteady.trans hsteady₂, hold₂.trans hold⟩
  · rintro _ c₁ ⟨-, hold⟩
    rw [hold]

/-- **Images with the same digest and different tags are resolved** without an exception. -/
theorem resolveDuplicate_loaded (order : SetOrder) (title : String → String) (h : Loaded c)
    (hne : (c.images new).tag ≠ (c.images old).tag)
    (hdigest : (c.images new).digest = (c.images old).digest) :
    ∃ c', resolveDuplicate order title new old c = .ok c' ∧ Loaded c' ∧ Keeps c c' ∧
      (∀ k ≠ new, (c'.images k).imageType = (c.images k).imageType) ∧
      (c'.byDigest = c.byDigest ∨
        c'.byDigest = Function.update c.byDigest (c.images new).digest (some new)) := by
  rw [resolveDuplicate, if_neg (by simpa using hdigest)]
  rcases hpossible : (c.images new).isPossibleAlias with _ | _
  · rw [if_neg (by simp)]
    have hadd := addAlias_steady h new (c.images old).tag hne new
    obtain ⟨c₁, hloop, hsteady, -⟩ := forAliases_steady order new old hadd.loaded
      (handOver title new (c.images new).tag (c.images old).tag) fun name c' hc' hname ↦ by
        have htag : ∀ k, (c'.images k).tag = (c.images k).tag :=
          fun k ↦ (hc'.keeps.tag k).trans (hadd.keeps.tag k)
        have hover := handOver_loaded title new old hc'.loaded (by rwa [htag, htag]) hname
        rwa [htag, htag] at hover
    have hlist := addAlias_steady hsteady.loaded old (c.images new).tag (by
      rw [hsteady.keeps.tag, hadd.keeps.tag]
      exact hne.symm) new
    have hall := (hadd.trans hsteady).trans hlist
    refine ⟨_, bind_eq_ok.2 ⟨c₁, hloop, rfl⟩, ⟨hall.loaded.wellFormed, hall.loaded.refers⟩,
      ⟨hall.keeps.tag, hall.keeps.digest, hall.keeps.aliases, hall.keeps.collection⟩, hall.type_eq, Or.inr ?_⟩
    rw [setByDigest, hall.byDigest]
  · rw [if_pos rfl]
    obtain ⟨c₁, hmark, hsteady₁⟩ := markAlias_loaded title h hpossible hne
    obtain ⟨c₂, hloop, hsteady₂, -⟩ := forAliases_steady order new old hsteady₁.loaded
      (listUnder (c.images new).tag) fun name c' hc' hname ↦ by
        have hunder := listUnder_loaded hc'.loaded hname new
        rwa [hc'.keeps.tag, hsteady₁.keeps.tag] at hunder
    have hall := hsteady₁.trans hsteady₂
    exact ⟨c₂, bind_eq_ok.2 ⟨c₁, hmark, hloop⟩, hall.loaded, hall.keeps, hall.type_eq,
      Or.inl hall.byDigest⟩

/-! ### Indexing by digest -/

variable {m rest : List ℕ}

/-- The images found by digest are of `m` and have that digest, and are not among those to come. -/
def Filed (m rest : List ℕ) (c : RSPImageCollection) : Prop :=
  ∀ d x, c.byDigest d = some x → x ∈ m ∧ x ∉ rest ∧ (c.images x).digest = d

/-- The images have distinct tags. -/
def DistinctTags (m : List ℕ) (c : RSPImageCollection) : Prop :=
  (m.map fun x ↦ (c.images x).tag).Nodup

theorem DistinctTags.eq (h : DistinctTags m c) (hi : i ∈ m) (hj : j ∈ m)
    (htag : (c.images i).tag = (c.images j).tag) : i = j :=
  List.inj_on_of_nodup_map h hi hj htag

theorem Keeps.distinctTags (h : Keeps c c') (hm : DistinctTags m c) : DistinctTags m c' := by
  rw [DistinctTags, List.map_congr_left fun x _ ↦ h.tag x]
  exact hm

theorem Filed.mono {rest' : List ℕ} (h : Filed m rest c) (hrest : ∀ x ∈ rest', x ∈ rest) :
    Filed m rest' c :=
  fun d x hx ↦ ⟨(h d x hx).1, fun hmem ↦ (h d x hx).2.1 (hrest x hmem), (h d x hx).2.2⟩

/-- Filing an image under its digest. -/
theorem Filed.update (h : Filed m rest c) (hi : i ∈ m) (hnew : i ∉ rest) (hkeeps : Keeps c c')
    (hby : c'.byDigest = c.byDigest ∨
      c'.byDigest = Function.update c.byDigest (c.images i).digest (some i)) :
    Filed m rest c' := by
  intro d x hx
  rw [hkeeps.digest]
  rcases hby with hby | hby
  · rw [hby] at hx
    exact h d x hx
  · rw [hby] at hx
    rcases eq_or_ne d (c.images i).digest with rfl | hd
    · rw [Function.update_self, Option.some.injEq] at hx
      subst hx
      exact ⟨hi, hnew, rfl⟩
    · rw [Function.update_of_ne hd] at hx
      exact h d x hx

/-- Images of `m` with the same digest are resolved, and the index by digest stays in order. -/
theorem resolveDuplicate_filed (order : SetOrder) (title : String → String) (h : Loaded c)
    (hm : DistinctTags m c) (hfiled : Filed m rest c) (hnew : new ∈ m) (hold : old ∈ m)
    (hne : new ≠ old) (hrest : new ∉ rest)
    (hdigest : (c.images new).digest = (c.images old).digest) :
    ∃ c', resolveDuplicate order title new old c = .ok c' ∧ Loaded c' ∧ Keeps c c' ∧
      Filed m rest c' ∧ ∀ k ≠ new, (c'.images k).imageType = (c.images k).imageType := by
  obtain ⟨c', hok, hloaded, hkeeps, htype, hby⟩ := resolveDuplicate_loaded order title h
    (fun htag ↦ hne (hm.eq hnew hold htag)) hdigest
  exact ⟨c', hok, hloaded, hkeeps, hfiled.update hnew hrest hkeeps hby, htype⟩

/-- **The first pass** leaves the possible aliases for later. -/
theorem firstPass_loaded (order : SetOrder) (title : String → String) (rest : List ℕ) :
    ∀ (kept : List ℕ) {c : RSPImageCollection}, Loaded c → DistinctTags m c →
      Filed m (kept ++ rest) c → (∀ x ∈ rest, x ∈ m) → (kept ++ rest).Nodup →
      ∃ unresolved c', firstPass order title rest c = .ok (unresolved, c') ∧ Loaded c' ∧ Keeps c c' ∧
        Filed m (kept ++ unresolved) c' ∧ unresolved.Sublist rest := by
  induction rest with
  | nil =>
    intro kept c h _ hfiled _ _
    exact ⟨[], c, rfl, h, .refl c, hfiled, .slnil⟩
  | cons i rest ih =>
    intro kept c h hm hfiled hmem hnodup
    have hi : i ∈ m := hmem i List.mem_cons_self
    have hrest : ∀ x ∈ rest, x ∈ m := fun x hx ↦ hmem x (List.mem_cons_of_mem _ hx)
    have hsub : (kept ++ rest).Sublist (kept ++ i :: rest) :=
      (List.sublist_cons_self i rest).append_left kept
    rcases hpossible : (c.images i).isPossibleAlias with _ | _
    · obtain ⟨c₁, hstep, h₁, hkeeps₁, hfiled₁⟩ : ∃ c₁, firstPass order title (i :: rest) c =
          firstPass order title rest c₁ ∧ Loaded c₁ ∧ Keeps c c₁ ∧ Filed m (kept ++ rest) c₁ := by
        rcases hby : c.byDigest (c.images i).digest with _ | other
        · have hkeeps : Keeps c (c.setByDigest (c.images i).digest i) :=
            ⟨fun _ ↦ rfl, fun _ ↦ rfl, fun _ ↦ subset_rfl, rfl⟩
          refine ⟨c.setByDigest (c.images i).digest i, by simp [firstPass, hpossible, hby],
            ⟨h.wellFormed, h.refers⟩, hkeeps,
            (hfiled.mono fun x hx ↦ hsub.subset hx).update hi ?_ hkeeps (Or.inr rfl)⟩
          exact (List.nodup_cons.1 (List.nodup_middle.1 hnodup)).1
        · obtain ⟨hother, hlater, hdigest⟩ := hfiled _ _ hby
          obtain ⟨c₁, hok, h₁, hkeeps, hfiled₁, -⟩ := resolveDuplicate_filed order title h hm hfiled
            hother hi (fun hoi ↦ hlater (by simp [hoi])) hlater hdigest
          refine ⟨c₁, ?_, h₁, hkeeps, hfiled₁.mono fun x hx ↦ hsub.subset hx⟩
          simp only [firstPass, hpossible, hby]
          rw [hok]
          rfl
      obtain ⟨unresolved, c', hok, h', hkeeps', hfiled', hsub'⟩ := ih kept h₁
        (hkeeps₁.distinctTags hm) hfiled₁ hrest (hnodup.sublist hsub)
      exact ⟨unresolved, c', hstep.trans hok, h', hkeeps₁.trans hkeeps', hfiled', hsub'.cons i⟩
    · obtain ⟨unresolved, c', hok, h', hkeeps', hfiled', hsub'⟩ := ih (kept ++ [i]) h hm
        (by simpa using hfiled) hrest (by simpa using hnodup)
      refine ⟨i :: unresolved, c', ?_, h', hkeeps', by simpa using hfiled', hsub'.cons_cons i⟩
      rw [firstPass, if_pos hpossible, hok]
      rfl

/-- **The second pass** files the remaining images. -/
theorem secondPass_loaded (order : SetOrder) (title : String → String) (rest : List ℕ) :
    ∀ {c : RSPImageCollection}, Loaded c → DistinctTags m c → Filed m rest c → (∀ x ∈ rest, x ∈ m) →
      rest.Nodup → ∃ c', secondPass order title rest c = .ok c' ∧ Loaded c' ∧ Keeps c c' ∧
        Filed m [] c' := by
  induction rest with
  | nil =>
    intro c h _ hfiled _ _
    exact ⟨c, rfl, h, .refl c, hfiled⟩
  | cons i rest ih =>
    intro c h hm hfiled hmem hnodup
    have hi : i ∈ m := hmem i List.mem_cons_self
    have hnew : i ∉ rest := (List.nodup_cons.1 hnodup).1
    have hfiled₀ : Filed m rest c := hfiled.mono fun x hx ↦ List.mem_cons_of_mem _ hx
    obtain ⟨c₁, hstep, h₁, hkeeps₁, hfiled₁⟩ : ∃ c₁, secondPass order title (i :: rest) c =
        secondPass order title rest c₁ ∧ Loaded c₁ ∧ Keeps c c₁ ∧ Filed m rest c₁ := by
      rcases hby : c.byDigest (c.images i).digest with _ | other
      · refine ⟨(c.appendUnresolved (c.images i).digest i).setByDigest (c.images i).digest i,
          by rw [secondPass, hby], ⟨h.wellFormed, h.refers⟩, ⟨fun _ ↦ rfl, fun _ ↦ rfl, fun _ ↦ subset_rfl, rfl⟩, ?_⟩
        exact hfiled₀.update hi hnew ⟨fun _ ↦ rfl, fun _ ↦ rfl, fun _ ↦ subset_rfl, rfl⟩ (Or.inr rfl)
      · obtain ⟨hother, hlater, hdigest⟩ := hfiled _ _ hby
        obtain ⟨c₁, hok, h₁, hkeeps, hfiled₁, -⟩ := resolveDuplicate_filed order title h hm hfiled₀
          hi hother (fun hoi ↦ hlater (by simp [hoi])) hnew hdigest.symm
        refine ⟨c₁, ?_, h₁, hkeeps, hfiled₁⟩
        rw [secondPass, hby]
        show (resolveDuplicate order title i other c >>= _) = _
        rw [hok]
        rfl
    obtain ⟨c', hok, h', hkeeps', hfiled'⟩ := ih h₁ (hkeeps₁.distinctTags hm) hfiled₁
      (fun x hx ↦ hmem x (List.mem_cons_of_mem _ hx)) (List.nodup_cons.1 hnodup).2
    exact ⟨c', hstep.trans hok, h', hkeeps₁.trans hkeeps', hfiled'⟩

section Contents

variable [Ord Version] {images : List ℕ} {cycle : Option ℕ}

/-! ### What a collection holds -/

/-- **The invariant of a collection** that holds the images `m`. -/
structure Sound (m : List ℕ) (c : RSPImageCollection) : Prop where
  wellFormed : ∀ k, (c.images k).WellFormed
  indexed : RSPImageTagCollection.Indexed c.view c.collection m
  distinct : DistinctTags m c
  filed : Filed m [] c

omit [Ord Version] in
/-- What is found under a name is the image with that tag. -/
theorem imageForTagName_eq_some (hindexed : RSPImageTagCollection.Indexed c.view c.collection m)
    {name : String} (h : c.imageForTagName name = some i) : i ∈ m ∧ (c.images i).tag = name := by
  rw [imageForTagName, RSPImageTagCollection.tagForTagName, hindexed.byTag] at h
  have htag : (c.view i).tag = name := by simpa using List.find?_some h
  exact ⟨List.mem_reverse.1 (List.mem_of_find?_eq_some h), htag⟩

omit [Ord Version] in
/-- Under the tag of an image it is found. -/
theorem Sound.finds (h : Sound m c) (hi : i ∈ m) :
    c.imageForTagName (c.images i).tag = some i := by
  rcases hlookup : c.imageForTagName (c.images i).tag with _ | k
  · rw [imageForTagName, RSPImageTagCollection.tagForTagName, h.indexed.byTag,
      List.find?_eq_none] at hlookup
    exact absurd (by simp [view]) (hlookup i (List.mem_reverse.2 hi))
  · obtain ⟨hk, htag⟩ := imageForTagName_eq_some h.indexed hlookup
    rw [h.distinct.eq hk hi htag]

omit [Ord Version] in
theorem Sound.loaded (h : Sound m c) : Loaded c :=
  ⟨h.wellFormed, fun _ _ hk ↦ (imageForTagName_eq_some h.indexed hk).2⟩

omit [Ord Version] in
theorem allImages_perm (hindexed : RSPImageTagCollection.Indexed c.view c.collection m) :
    (c.allImages false false).Perm m := by
  have hall : c.allImages false false = c.collection.allTags c.view false := by simp [allImages]
  rw [hall]
  exact hindexed.perm_allTags

omit [Ord Version] in
/-- By default only the images for all architectures are shown. -/
theorem Sound.mem_allImages (h : Sound m c) :
    i ∈ c.allImages ↔ i ∈ m ∧ (c.view i).isArchSpecific = false := by
  simp [allImages, RSPImageTagCollection.allTags, h.indexed.mem_byType, RSPImageType.mem_all]

omit [Ord Version] in
theorem Sound.nodup (h : Sound m c) : m.Nodup := h.distinct.of_map

/-- **Reindexing succeeds** on well-formed images with distinct tags. -/
theorem replaceContents_sound (order : SetOrder) (title : String → String) (images : List ℕ)
    (cycle : Option ℕ) (hwellFormed : ∀ k, (c.images k).WellFormed)
    (hm : DistinctTags (images.filter fun i ↦ cycle = none ∨ (c.images i).cycle = cycle) c) :
    ∃ c', replaceContents order title images cycle c = .ok c' ∧
      Sound (images.filter fun i ↦ cycle = none ∨ (c.images i).cycle = cycle) c' := by
  obtain ⟨m, hmeq⟩ : ∃ m, m = images.filter fun i ↦ cycle = none ∨ (c.images i).cycle = cycle :=
    ⟨_, rfl⟩
  rw [← hmeq] at hm ⊢
  obtain ⟨collection, hindex, -, hindexed⟩ := reindexTags_spec m
    { c with byDigest := fun _ ↦ none, unresolvedAliases := fun _ ↦ [] }
  have hloaded : Loaded { c with
      byDigest := fun _ ↦ none, unresolvedAliases := fun _ ↦ [], collection } :=
    ⟨hwellFormed, fun _ _ hk ↦ (imageForTagName_eq_some hindexed hk).2⟩
  have hnodup : m.Nodup := hm.of_map
  obtain ⟨unresolved, c₁, hfirst, hloaded₁, hkeeps₁, hfiled₁, hsub⟩ := firstPass_loaded (m := m) order
    title m [] hloaded hm (fun _ _ hx ↦ by cases hx) (fun _ hx ↦ hx) (by simpa using hnodup)
  obtain ⟨c₂, hsecond, hloaded₂, hkeeps₂, hfiled₂⟩ := secondPass_loaded order title unresolved hloaded₁
    (hkeeps₁.distinctTags hm) (by simpa using hfiled₁) (fun x hx ↦ hsub.subset hx)
    (hnodup.sublist hsub)
  obtain ⟨collection', hindex', -, hindexed'⟩ := reindexTags_spec m c₂
  refine ⟨{ c₂ with collection := collection' }, ?_, hloaded₂.wellFormed, hindexed',
    (hkeeps₁.trans hkeeps₂).distinctTags hm, hfiled₂⟩
  rw [hmeq] at hindex hfirst hindex'
  exact bind_eq_ok.2 ⟨_, hindex, bind_eq_ok.2 ⟨_, hfirst, bind_eq_ok.2 ⟨_, hsecond, hindex'⟩⟩⟩

/-! ### Clean additions -/

section Addition

variable (order : SetOrder) (title : String → String)

/-- **A clean addition**: it raises nothing, the image is found under its tag, what was found under
another tag still has an image of the same digest there, and every tag is listed once. -/
def AddsCleanly (c : RSPImageCollection) (i : ℕ) : Prop :=
  ∃ c', add order title i c = .ok c' ∧ c'.imageForTagName (c.images i).tag = some i ∧
    (∀ name ≠ (c.images i).tag, ∀ x, c.imageForTagName name = some x →
      ∃ y, c'.imageForTagName name = some y ∧ (c'.images y).digest = (c.images x).digest) ∧
    ∀ name, ((c'.allImages false false).map fun x ↦ (c'.images x).tag).count name =
      if (c'.imageForTagName name).isSome then 1 else 0

omit [Ord Version] in
/-- Whether adding the image reindexes the collection. -/
def Reindexes (c : RSPImageCollection) (i : ℕ) : Prop :=
  (c.images i).isPossibleAlias = false ∧ c.unresolvedAliases (c.images i).digest ≠ []

omit [Ord Version] in
/-- **An image fits** if its tag is the tag of exactly those images that the addition drops: of none,
or, where it reindexes the collection, of the images for a specific architecture. -/
def Fits (c : RSPImageCollection) (i : ℕ) : Prop :=
  ∀ x ∈ c.allImages false false, (c.images x).tag = (c.images i).tag ↔
    Reindexes c i ∧ (c.view x).isArchSpecific = true

variable {order title}

theorem add_of_reindexes (h : Reindexes c i) :
    add order title i c = replaceContents order title (c.allImages ++ [i]) none c := by
  rw [add, if_pos (by simpa [Reindexes] using h)]

theorem add_of_not_reindexes (h : ¬ Reindexes c i) (hadd : add order title i c = .ok c') :
    ∃ c₁ collection, addByDigest order title i c = .ok c₁ ∧
      c₁.collection.add c₁.view i = some collection ∧ c' = { c₁ with collection } := by
  rw [add, if_neg (by simpa [Reindexes] using h)] at hadd
  obtain ⟨c₁, hdigest, hadd⟩ := bind_eq_ok.1 hadd
  split at hadd
  · cases hadd
  · next collection hcollection =>
    exact ⟨c₁, collection, hdigest, hcollection, (Except.ok.inj hadd).symm⟩

/-- The images of a collection that are not dropped, and the one that is added. -/
theorem Sound.add (order : SetOrder) (title : String → String) (h : Sound m c) (hfits : Fits c i) :
    ∃ c' m', add order title i c = .ok c' ∧ Sound m' c' ∧
      (∀ k, (c'.images k).tag = (c.images k).tag) ∧
      (∀ k, (c'.images k).digest = (c.images k).digest) ∧
      ∀ x, x ∈ m' ↔ x = i ∨ x ∈ m ∧ (c.images x).tag ≠ (c.images i).tag := by
  have hfits' : ∀ x ∈ m, (c.images x).tag = (c.images i).tag ↔
      Reindexes c i ∧ (c.view x).isArchSpecific = true :=
    fun x hx ↦ hfits x ((allImages_perm h.indexed).mem_iff.2 hx)
  by_cases hreindex : Reindexes c i
  · -- The images that are shown are those with another tag.
    have hshown : ∀ x, x ∈ c.allImages ↔ x ∈ m ∧ (c.images x).tag ≠ (c.images i).tag := by
      intro x
      rw [h.mem_allImages]
      refine and_congr_right fun hx ↦ ?_
      rw [ne_eq, hfits' x hx, and_iff_right hreindex, Bool.not_eq_true]
    have hdistinct : DistinctTags (c.allImages ++ [i]) c := by
      refine List.Nodup.map_on ?_ ?_
      · intro x hx y hy htag
        simp only [List.mem_append, List.mem_singleton, hshown] at hx hy
        rcases hx with ⟨hxm, hx⟩ | rfl <;> rcases hy with ⟨hym, hy⟩ | rfl
        · exact h.distinct.eq hxm hym htag
        · exact absurd htag hx
        · exact absurd htag.symm hy
        · rfl
      · refine List.nodup_append.2 ⟨(h.indexed.nodup_allTags h.nodup _).filter _, by simp, ?_⟩
        rintro x hx y hy rfl
        obtain rfl := List.mem_singleton.1 hy
        exact ((hshown x).1 hx).2 rfl
    have hall : ((c.allImages ++ [i]).filter fun i ↦
        (none : Option ℕ) = none ∨ (c.images i).cycle = none) = c.allImages ++ [i] := by simp
    obtain ⟨c', hok, hsound⟩ := replaceContents_sound order title (c.allImages ++ [i]) none
      h.wellFormed (by rwa [hall])
    obtain ⟨htag, hdigest, -⟩ := replaceContents_indexed hok
    rw [hall] at hsound
    refine ⟨c', c.allImages ++ [i], (add_of_reindexes hreindex).trans hok, hsound, htag, hdigest,
      fun x ↦ ?_⟩
    rw [List.mem_append, hshown, List.mem_singleton, or_comm]
  · -- The tag is new.
    have hnew : ∀ x ∈ m, (c.images x).tag ≠ (c.images i).tag :=
      fun x hx htag ↦ hreindex ((hfits' x hx).1 htag).1
    have hi : i ∈ m ++ [i] := by simp
    have hdistinct : DistinctTags (m ++ [i]) c := by
      rw [DistinctTags, List.map_append]
      refine List.nodup_append.2 ⟨h.distinct, by simp, ?_⟩
      intro tag htag tag' htag'
      obtain ⟨x, hx, rfl⟩ := List.mem_map.1 htag
      obtain rfl := List.mem_singleton.1 htag'
      exact hnew x hx
    have hfiled : Filed (m ++ [i]) [] c := fun d x hx ↦
      ⟨List.mem_append_left _ (h.filed d x hx).1, (h.filed d x hx).2⟩
    obtain ⟨c₁, hok₁, hloaded₁, hkeeps₁, hfiled₁, htype⟩ : ∃ c₁, addByDigest order title i c = .ok c₁ ∧
        Loaded c₁ ∧ Keeps c c₁ ∧ Filed (m ++ [i]) [] c₁ ∧
        ∀ k ≠ i, (c₁.images k).imageType = (c.images k).imageType := by
      rcases hby : c.byDigest (c.images i).digest with _ | other
      · have hkeeps : Keeps c (c.setByDigest (c.images i).digest i) :=
          ⟨fun _ ↦ rfl, fun _ ↦ rfl, fun _ ↦ subset_rfl, rfl⟩
        exact ⟨c.setByDigest (c.images i).digest i, by rw [addByDigest, hby], ⟨h.loaded.wellFormed, h.loaded.refers⟩, hkeeps,
          hfiled.update hi List.not_mem_nil hkeeps (Or.inr rfl), fun _ _ ↦ rfl⟩
      · obtain ⟨hother, -, hdigest⟩ := h.filed _ _ hby
        obtain ⟨c₁, hok, hrest⟩ := resolveDuplicate_filed order title h.loaded hdistinct hfiled hi
          (List.mem_append_left _ hother) (fun hio ↦ hnew other hother (by rw [← hio]))
          List.not_mem_nil hdigest.symm
        exact ⟨c₁, by rw [addByDigest, hby]; exact hok, hrest⟩
    have hindexed₁ : RSPImageTagCollection.Indexed c₁.view c₁.collection m := by
      rw [hkeeps₁.collection]
      exact h.indexed.congr (fun x hx ↦ htype x fun hxi ↦ hnew x hx (by rw [hxi]))
        fun x _ ↦ hkeeps₁.tag x
    obtain ⟨collection, hadd⟩ : ∃ collection, c₁.collection.add c₁.view i = some collection :=
      ⟨_, RSPImageTagCollection.add_eq hindexed₁ i⟩
    refine ⟨{ c₁ with collection }, m ++ [i], ?_, ⟨hloaded₁.wellFormed,
      RSPImageTagCollection.add_indexed hindexed₁ hadd, hkeeps₁.distinctTags hdistinct, hfiled₁⟩,
      hkeeps₁.tag, hkeeps₁.digest, fun x ↦ ?_⟩
    · rw [RSPImageCollection.add, if_neg (by simpa [Reindexes] using hreindex)]
      refine bind_eq_ok.2 ⟨c₁, hok₁, ?_⟩
      rw [hadd]
    · rw [List.mem_append, List.mem_singleton, or_comm]
      exact or_congr_right (and_iff_left_of_imp (hnew x)).symm

/-- **An addition is clean exactly if the image fits.** -/
theorem Sound.addsCleanly_iff (h : Sound m c) : AddsCleanly order title c i ↔ Fits c i := by
  constructor
  · rintro ⟨c', hadd, -, hothers, hcount⟩ x hx
    have hxm : x ∈ m := (allImages_perm h.indexed).mem_iff.1 hx
    -- What is listed afterwards has distinct tags.
    have hnodup : ((c'.allImages false false).map fun x ↦ (c'.images x).tag).Nodup := by
      rw [List.nodup_iff_count_le_one]
      intro name
      rw [hcount]
      split <;> omega
    by_cases hreindex : Reindexes c i
    · rw [add_of_reindexes hreindex] at hadd
      obtain ⟨htag, -, hindexed⟩ := replaceContents_indexed hadd
      have hall : ((c.allImages ++ [i]).filter fun i ↦
          (none : Option ℕ) = none ∨ (c.images i).cycle = none) = c.allImages ++ [i] := by simp
      rw [hall] at hindexed
      have hlisted := ((allImages_perm hindexed).map fun x ↦ (c'.images x).tag).nodup_iff.1 hnodup
      rw [and_iff_right hreindex]
      constructor
      · intro hxi
        by_contra harch
        have hshown : x ∈ c.allImages := h.mem_allImages.2 ⟨hxm, by simpa using harch⟩
        rw [List.map_append] at hlisted
        exact (List.nodup_append.1 hlisted).2.2 _ (List.mem_map.2 ⟨x, hshown, rfl⟩) _
          (List.mem_map.2 ⟨i, List.mem_singleton_self i, rfl⟩) (by rw [htag, htag, hxi])
      · intro harch
        by_contra hne
        obtain ⟨y, hy, -⟩ := hothers _ hne x (h.finds hxm)
        obtain ⟨hyL, hytag⟩ := imageForTagName_eq_some hindexed hy
        rw [htag] at hytag
        rcases List.mem_append.1 hyL with hyL | hyL
        · obtain ⟨hym, hyarch⟩ := h.mem_allImages.1 hyL
          rw [h.distinct.eq hym hxm hytag, harch] at hyarch
          cases hyarch
        · rw [List.mem_singleton.1 hyL] at hytag
          exact hne hytag.symm
    · refine iff_of_false (fun hxi ↦ ?_) fun hboth ↦ hreindex hboth.1
      obtain ⟨c₁, collection, hdigest, hcollection, rfl⟩ := add_of_not_reindexes hreindex hadd
      have hkeeps := addByDigest_keeps hdigest
      have hperm : ({ c₁ with collection }.allImages false false).Perm
          (i :: c.allImages false false) := by
        have hall : ∀ c : RSPImageCollection, c.allImages false false =
            c.collection.allTags c₁.view false := fun c ↦ by
          simp [allImages, RSPImageTagCollection.allTags]
        rw [hall, hall c, ← hkeeps.collection]
        exact RSPImageTagCollection.add_perm hcollection c₁.view
      have hlisted := (hperm.map fun x ↦ (c₁.images x).tag).nodup_iff.1 hnodup
      exact (List.nodup_cons.1 hlisted).1
        (List.mem_map.2 ⟨x, hx, (hkeeps.tag x).trans (hxi.trans (hkeeps.tag i).symm)⟩)
  · intro hfits
    obtain ⟨c', m', hadd, h', htag, hdigest, hm'⟩ := h.add order title hfits
    refine ⟨c', hadd, ?_, fun name hname x hx ↦ ?_, fun name ↦ ?_⟩
    · rw [← htag]
      exact h'.finds ((hm' i).2 (Or.inl rfl))
    · obtain ⟨hxm, rfl⟩ := imageForTagName_eq_some h.indexed hx
      refine ⟨x, ?_, hdigest x⟩
      rw [← htag]
      exact h'.finds ((hm' x).2 (Or.inr ⟨hxm, hname⟩))
    · rw [((allImages_perm h'.indexed).map _).count_eq, List.Nodup.count h'.distinct]
      refine if_congr ?_ rfl rfl
      rw [List.mem_map, Option.isSome_iff_exists]
      constructor
      · rintro ⟨x, hx, rfl⟩
        exact ⟨x, h'.finds hx⟩
      · rintro ⟨x, hx⟩
        exact ⟨x, imageForTagName_eq_some h'.indexed hx⟩

variable (order title)

/-- **A run of a collection**: it is built from well-formed images with distinct tags, and images for
which `allowed` holds are added to it one at a time. -/
inductive Run (allowed : RSPImageCollection → ℕ → Prop) : RSPImageCollection → Prop
  | init {heap : Heap RSPImage} {images : List ℕ} {cycle : Option ℕ} {c : RSPImageCollection} :
    (∀ i, (heap i).WellFormed) →
    ((images.filter fun i ↦ cycle = none ∨ (heap i).cycle = cycle).map fun i ↦
      (heap i).tag).Nodup →
    RSPImageCollection.init order title heap images cycle = .ok c → Run allowed c
  | add {c c' : RSPImageCollection} {i : ℕ} :
    Run allowed c → allowed c i → RSPImageCollection.add order title i c = .ok c' → Run allowed c'

variable {order title}

/-- The run lemma: a run in which every image fits keeps the invariant. -/
theorem Run.sound (h : Run order title Fits c) : ∃ m, Sound m c := by
  induction h with
  | @init heap images cycle c hwellFormed htags hinit =>
    obtain ⟨c', hok, hsound⟩ := replaceContents_sound
      (c := ⟨heap, fun _ ↦ none, fun _ ↦ [], .empty⟩) order title images cycle hwellFormed htags
    obtain rfl := Except.ok.inj (hok.symm.trans hinit)
    exact ⟨_, hsound⟩
  | add _ hfits hadd ih =>
    obtain ⟨m, hsound⟩ := ih
    obtain ⟨c', m', hok, hsound', -⟩ := hsound.add order title hfits
    obtain rfl := Except.ok.inj (hok.symm.trans hadd)
    exact ⟨m', hsound'⟩

/-- **In a run in which every image fits, the next addition is clean exactly if its image fits.** -/
theorem adds_cleanly_iff (h : Run order title Fits c) (i : ℕ) :
    AddsCleanly order title c i ↔ Fits c i := by
  obtain ⟨m, hsound⟩ := h.sound
  exact hsound.addsCleanly_iff

end Addition

end Contents

section Sample

local instance samplePrecedence : Ord Version := semverPrecedence

/-- An image of the digest that is numbered so. -/
def numberedImage (tag : String) (number : ℕ) : RSPImage :=
  .fromTag (.fromStr tag) "lighthouse.ceres" "library/sketchbook" s!"sha256:{number}" none

/-- Images of three digests; one is for one architecture. -/
def sampleImages : List RSPImage :=
  [("w_2077_45-amd64", 1), ("recommended", 2), ("w_2077_46", 2), ("w_2077_47", 3),
    ("w_2077_48", 3)].map fun image ↦ numberedImage image.1 image.2

theorem wellFormed_sampleImages (i : ℕ) : (Heap.ofList sampleImages i).WellFormed := by
  rcases ofList_mem_or_default sampleImages i with hmem | hdefault
  · obtain ⟨image, -, himage⟩ := List.mem_map.1 hmem
    rw [← himage]
    exact RSPImage.wellFormed_fromTag _ _ _ _ _
  · rw [hdefault]
    exact ⟨Finset.notMem_empty _, fun h ↦ absurd rfl h⟩

/-- The collection of the sample images at these references. -/
def sampleCollection (images : List ℕ) : RSPImageCollection :=
  (init insertionOrder id (Heap.ofList sampleImages) images).toOption.getD
    ⟨Heap.ofList sampleImages, fun _ ↦ none, fun _ ↦ [], .empty⟩

/-- Building a sample collection is a run. -/
theorem run_sampleCollection {allowed : RSPImageCollection → ℕ → Prop} {images : List ℕ}
    (htags : (images.map fun i ↦ (Heap.ofList sampleImages i).tag).Nodup)
    (hok : (init insertionOrder id (Heap.ofList sampleImages) images).toOption.isSome = true) :
    Run insertionOrder id allowed (sampleCollection images) := by
  rcases hinit : init insertionOrder id (Heap.ofList sampleImages) images with e | c
  · rw [hinit] at hok
    cases hok
  · have hc : sampleCollection images = c := by
      rw [sampleCollection, hinit]
      rfl
    rw [hc]
    exact .init wellFormed_sampleImages (by simpa using htags) hinit

/-- Adding the target of an alias to a collection that holds only the alias reindexes it, and nothing
is lost. -/
theorem adds_cleanly_sample : AddsCleanly insertionOrder id (sampleCollection [1]) 2 :=
  (adds_cleanly_iff (run_sampleCollection (by decide +kernel) (by decide +kernel)) 2).2 fun x hx ↦ by
    have hx : x = 1 := by
      have hall : (sampleCollection [1]).allImages false false = [1] := by decide +kernel
      simpa [hall] using hx
    subst hx
    exact iff_of_false (by decide +kernel) fun h ↦ absurd h.2 (by decide +kernel)

/-- **Additions that are not clean.** The target of an alias is added to a collection that also holds
an image for one architecture: that image is lost. An image is added a second time: it is listed twice.
After that, another image of its digest is added: the method raises an exception. -/
theorem add_not_clean :
    (Run insertionOrder id (fun _ _ ↦ True) (sampleCollection [0, 1]) ∧
      ¬ AddsCleanly insertionOrder id (sampleCollection [0, 1]) 2) ∧
    ∃ c, Run insertionOrder id (fun _ _ ↦ True) c ∧ c.allImages false false = [3, 3] ∧
      add insertionOrder id 4 c = .error (.runtimeError "Set changed size during iteration") ∧
      ¬ AddsCleanly insertionOrder id c 4 := by
  constructor
  · refine ⟨run_sampleCollection (by decide +kernel) (by decide +kernel), ?_⟩
    rintro ⟨c, hadd, -, hothers, -⟩
    have hlost : (add insertionOrder id 2 (sampleCollection [0, 1])).toOption.map (fun c ↦
        c.imageForTagName "w_2077_45-amd64") = some none := by decide +kernel
    rw [hadd] at hlost
    obtain ⟨y, hy, -⟩ := hothers "w_2077_45-amd64" (by decide +kernel) 0 (by decide +kernel)
    cases (Option.some.inj hlost).symm.trans hy
  · have hrun : Run insertionOrder id (fun _ _ ↦ True) (sampleCollection [3]) :=
      run_sampleCollection (by decide +kernel) (by decide +kernel)
    have hraises : (add insertionOrder id 3 (sampleCollection [3])).toOption.map (fun c ↦
        (c.allImages false false, (add insertionOrder id 4 c).map fun _ ↦ ())) =
        some ([3, 3], .error (.runtimeError "Set changed size during iteration")) := by
      decide +kernel
    rcases hadd : add insertionOrder id 3 (sampleCollection [3]) with e | c
    · rw [hadd] at hraises
      cases hraises
    rw [hadd] at hraises
    have hboth := Prod.mk.inj (Option.some.inj hraises)
    refine ⟨c, .add hrun trivial hadd, hboth.1, ?_⟩
    rcases hnext : add insertionOrder id 4 c with e | c'
    · rw [hnext] at hboth
      refine ⟨congrArg _ (Except.error.inj hboth.2), ?_⟩
      rintro ⟨c', hadd', -⟩
      rw [hnext] at hadd'
      cases hadd'
    · rw [hnext] at hboth
      cases hboth.2

end Sample

end RSPImageCollection

end Nublado.Images
