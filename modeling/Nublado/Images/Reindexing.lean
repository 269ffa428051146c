import Nublado.Images.Classes
import Nublado.Images.Frame

/-!
# Indexing images again

A collection is built out of images that another collection has classified already. Each step
either changes nothing, or makes some image list a tag that it did not list before; and since no
later step takes a tag away, the outcome shows it (`Grown`).

* `Harmless` says when the step is of the first kind, for an image and the one that is found under its
  digest then, in terms of what images know of each other.
* `init_outcome`: building the collection changes no image exactly if every step is harmless
  (`Chain`). `chain_iff` says so digest by digest.
-/

namespace Nublado.Images

namespace RSPImageCollection

variable {c c' : RSPImageCollection} {H : Heap RSPImage} {l : List ℕ}

/-! ### Growing -/

/-- Some image of these lists a tag that it did not list before. -/
def Grown (l : List ℕ) (H : Heap RSPImage) (c : RSPImageCollection) : Prop :=
  ∃ x ∈ l, ∃ name ∈ (c.images x).aliases, name ∉ (H x).aliases

/-- What has grown stays so. -/
theorem Grown.keeps (h : Grown l H c) (hkeeps : Keeps c c') : Grown l H c' := by
  obtain ⟨x, hx, name, hmem, hnew⟩ := h
  exact ⟨x, hx, name, hkeeps.aliases x hmem, hnew⟩

/-- **Either nothing changes or something grows**, depending on `good`. -/
structure Outcome (l : List ℕ) (H : Heap RSPImage) (good : Prop) (P : RSPImageCollection → Prop)
    (result : Except ImageError RSPImageCollection) : Prop where
  same : good → ∃ c, result = .ok c ∧ c.images = H ∧ P c
  grown : ¬ good → ∀ c, result = .ok c → Grown l H c

/-- Listing a tag that is listed already changes nothing. -/
theorem addAlias_of_mem {i : ℕ} {name : String} (h : name ∈ (c.images i).aliases) :
    c.addAlias i name = c := by
  have himages : (c.addAlias i name).images = c.images := by
    have hcell : (c.addAlias i name).images.cell = c.images.cell := by
      funext x
      rcases eq_or_ne x i with rfl | hx
      · rw [addAlias_images_self, Finset.insert_eq_of_mem h]
      · exact addAlias_images_of_ne c name hx
    rw [show (c.addAlias i name).images = ⟨c.images.size, (c.addAlias i name).images.cell⟩ from rfl,
      hcell]
  rw [show c.addAlias i name = { c with images := (c.addAlias i name).images } from rfl, himages]

/-- A loop over aliases whose body does nothing. -/
theorem forAliases_outcome {i size : ℕ}
    {body : String → RSPImageCollection → Except ImageError RSPImageCollection}
    {good : String → Prop} (htouches : ∀ name c c', body name c = .ok c' → Touches c c')
    (hsize : (c.images i).aliases.card = size) (names : List String)
    (hgood : ∀ name ∈ names, good name → body name c = .ok c)
    (hbad : ∀ name ∈ names, ¬ good name → ∀ c', body name c = .ok c' → Grown l c.images c') :
    ((∀ name ∈ names, good name) → forAliases i size body names c = .ok c) ∧
      (¬ (∀ name ∈ names, good name) → ∀ c', forAliases i size body names c = .ok c' →
        Grown l c.images c') := by
  induction names with
  | nil =>
    rw [forAliases, if_neg (by simp [hsize])]
    exact ⟨fun _ ↦ rfl, fun h ↦ absurd (by simp) h⟩
  | cons name names ih =>
    obtain ⟨hsame, hgrown⟩ := ih (fun n hn ↦ hgood n (List.mem_cons_of_mem _ hn)) fun n hn ↦
      hbad n (List.mem_cons_of_mem _ hn)
    have hloop : forAliases i size body (name :: names) c =
        body name c >>= forAliases i size body names := by
      rw [forAliases, if_neg (by simp [hsize])]
    rw [hloop, List.forall_mem_cons]
    by_cases hname : good name
    · rw [hgood name List.mem_cons_self hname]
      exact ⟨fun h ↦ hsame h.2, fun h ↦ hgrown fun h' ↦ h ⟨hname, h'⟩⟩
    · refine ⟨fun h ↦ absurd h.1 hname, fun _ c' hc' ↦ ?_⟩
      obtain ⟨c₁, hbody, hrest⟩ := bind_eq_ok.1 hc'
      exact (hbad name List.mem_cons_self hname c₁ hbody).keeps
        (forAliases_touches htouches _ hrest).toKeeps

/-! ### Steps -/

section Steps

variable {title : String → String} {base : Heap RSPImage} {s : List ℕ} {c₀ : RSPImageCollection}
  {i t x y : ℕ}

/-- **A collection that has classified its images**, from images as they were built. -/
structure Settled (title : String → String) (base : Heap RSPImage) (l : List ℕ)
    (c : RSPImageCollection) : Prop extends Classified title base l c where
  pool : Pool base
  lt : ∀ x ∈ l, x < base.size
  nodup : l.Nodup
  first : ∀ d r, firstOf base l d = some r → (base r).isPossibleAlias = true →
    ∀ x ∈ l, (base x).digest = d → (base x).isPossibleAlias = true

/-- **A collection that is being built of the images `s`**, so far without changing any image. -/
structure Rereads (base H : Heap RSPImage) (s : List ℕ) (c : RSPImageCollection) : Prop where
  images : c.images = H
  finds : ∀ x ∈ s, c.collection.tagForTagName (base x).tag = some x
  refers : ∀ name x, c.collection.tagForTagName name = some x → x ∈ s ∧ (base x).tag = name

namespace Settled

/-- An image lists the tag of another one if it knows it. -/
theorem tag_mem (h : Settled title base l c₀) (hy : y ∈ l) :
    (base y).tag ∈ (c₀.images x).aliases ↔ Knows base l x y := by
  rw [h.mem]
  constructor
  · rintro ⟨y', hknows, htag⟩
    rwa [h.pool.tag_inj y' (h.lt y' hknows.2.1) y (h.lt y hy) htag] at hknows
  · exact fun hknows ↦ ⟨y, hknows, rfl⟩

/-- No image knows the one that it is an alias of. -/
theorem not_knows_target (h : Settled title base l c₀) (hx : x ∈ l)
    (htarget : (c₀.images y).aliasTarget = some (base x).tag) : ¬ Knows base l y x := by
  rw [h.image, settled] at htarget
  split at htarget
  · next hy =>
    rcases hr : firstOf base l (base y).digest with _ | r
    · rw [hr] at htarget
      simp [h.pool.target_eq] at htarget
    · rw [hr, Option.filter_some] at htarget
      rcases hrp : (base r).isPossibleAlias with _ | _
      · simp only [hrp, Bool.not_false, if_true, Option.elim_some, RSPImage.resolved,
          Option.some.injEq] at htarget
        obtain rfl := h.pool.tag_inj r (h.lt r (firstOf_mem hr).1) x (h.lt x hx) htarget
        rintro ⟨-, -, hne, -, r', hr', hknows⟩
        obtain rfl := Option.some.inj (hr.symm.trans hr')
        simp [hrp, hne, hy.2] at hknows
      · simp [hrp, h.pool.target_eq] at htarget
  · simp [h.pool.target_eq] at htarget

end Settled

/-- **Whether a target can be resolved against the first one without a change.** -/
def HarmlessTarget (base : Heap RSPImage) (l s : List ℕ) (c₀ : RSPImageCollection) (t x : ℕ) : Prop :=
  Knows base l t x ∧ Knows base l x t ∧ ∀ y ∈ s, Knows base l x y → y ≠ t →
    Knows base l t y ∧ Knows base l y t ∧ (c₀.images y).aliasTarget ≠ some (base x).tag

/-- Handing over one alias, where nothing has changed yet. -/
theorem handOver_outcome (h : Settled title base l c₀) (hc : Rereads base c₀.images s c)
    (hs : ∀ x ∈ s, x ∈ l) (ht : t ∈ l) (hx : x ∈ l) (name : String) :
    let good := ∀ y, c.collection.tagForTagName name = some y → name ≠ (base t).tag →
      Knows base l t y ∧ Knows base l y t ∧ (c₀.images y).aliasTarget ≠ some (base x).tag
    (good → handOver title t (base t).tag (base x).tag name c = .ok c) ∧
      (¬ good → ∀ c', handOver title t (base t).tag (base x).tag name c = .ok c' →
        Grown l c₀.images c') := by
  intro good
  rcases hlookup : c.collection.tagForTagName name with _ | y
  · have hgood : good := by simp [good, hlookup]
    exact ⟨fun _ ↦ by rw [handOver, hlookup], fun hbad ↦ absurd hgood hbad⟩
  by_cases hskip : name = (base t).tag
  · have hgood : good := fun _ _ hne ↦ absurd hskip hne
    exact ⟨fun _ ↦ by rw [handOver, hlookup]; exact if_pos hskip, fun hbad ↦ absurd hgood hbad⟩
  obtain ⟨hys, rfl⟩ := hc.refers _ y hlookup
  have hy := hs y hys
  have hgood : good ↔ Knows base l t y ∧ Knows base l y t ∧
      (c₀.images y).aliasTarget ≠ some (base x).tag := by
    simp [good, hlookup, hskip]
  rw [hgood]
  have hlisted : ∀ {z w}, w ∈ l →
      ((base w).tag ∈ (c.images z).aliases ↔ Knows base l z w) := fun hw ↦ by
    rw [hc.images]
    exact h.tag_mem hw
  have htarget : ((c.addAlias t (base y).tag).images y).aliasTarget =
      (c₀.images y).aliasTarget := by
    rw [← hc.images]
    exact congrArg Prod.snd (addAlias_status c t y _)
  have hstep : handOver title t (base t).tag (base x).tag (base y).tag c =
      if (c₀.images y).aliasTarget = some (base x).tag then
        (resolveAlias title y t (c.addAlias t (base y).tag)).map fun c ↦ c.addAlias y (base x).tag
      else .ok ((c.addAlias t (base y).tag).addAlias y (base t).tag) := by
    rw [handOver, hlookup, ← htarget]
    exact if_neg hskip
  rw [hstep]
  have hfirst : (base y).tag ∈ ((c.addAlias t (base y).tag).images t).aliases := by
    rw [addAlias_aliases, if_pos rfl]
    exact Finset.mem_insert_self _ _
  by_cases hhanded : (c₀.images y).aliasTarget = some (base x).tag
  · -- The alias is handed over, and lists the tag of its old target then.
    rw [if_pos hhanded]
    refine ⟨fun hall ↦ absurd hhanded hall.2.2, fun _ c' hc' ↦ ?_⟩
    obtain ⟨c₂, -, rfl⟩ := map_eq_ok.1 hc'
    refine ⟨y, hy, (base x).tag, ?_, fun hmem ↦ h.not_knows_target hx hhanded ((h.tag_mem hx).1 hmem)⟩
    rw [addAlias_aliases, if_pos rfl]
    exact Finset.mem_insert_self _ _
  · rw [if_neg hhanded]
    constructor
    · rintro ⟨hty, hyt, -⟩
      rw [addAlias_of_mem ((hlisted hy).2 hty), addAlias_of_mem ((hlisted ht).2 hyt)]
    · intro hbad c' hc'
      obtain rfl := Except.ok.inj hc'
      by_cases hty : Knows base l t y
      · have hyt : ¬ Knows base l y t := fun hyt ↦ hbad ⟨hty, hyt, hhanded⟩
        refine ⟨y, hy, (base t).tag, ?_, fun hmem ↦ hyt ((h.tag_mem ht).1 hmem)⟩
        rw [addAlias_aliases, if_pos rfl]
        exact Finset.mem_insert_self _ _
      · have hgrown : Grown l c₀.images (c.addAlias t (base y).tag) :=
          ⟨t, ht, (base y).tag, hfirst, fun hmem ↦ hty ((h.tag_mem hy).1 hmem)⟩
        exact hgrown.keeps (addAlias_touches _ y _).toKeeps

/-- **Resolving a target against the first one**, where nothing has changed yet. -/
theorem resolveDuplicate_target_outcome (order : SetOrder) (h : Settled title base l c₀)
    (hc : Rereads base c₀.images s c) (hs : ∀ x ∈ s, x ∈ l) (ht : t ∈ l) (hx : x ∈ l)
    (hd : (base t).digest = (base x).digest) (htp : (base t).isPossibleAlias = false) :
    Outcome l c₀.images (HarmlessTarget base l s c₀ t x)
      (fun c' ↦ c'.collection = c.collection ∧
        c'.byDigest = Function.update c.byDigest (base t).digest (some t))
      (resolveDuplicate order title t x c) := by
  have hlisted : ∀ {z w}, w ∈ l →
      ((base w).tag ∈ (c.images z).aliases ↔ Knows base l z w) := fun hw ↦ by
    rw [hc.images]
    exact h.tag_mem hw
  have htag : ∀ z, (c.images z).tag = (base z).tag := by
    rw [hc.images]
    exact h.tag
  have hdigest : ∀ z, (c.images z).digest = (base z).digest := by
    rw [hc.images]
    exact h.digest
  have hpossible : (c.images t).isPossibleAlias = false := by
    rw [hc.images, h.possible, htp]
  obtain ⟨c₁, hc₁⟩ : ∃ c₁, c₁ = c.addAlias t (base x).tag := ⟨_, rfl⟩
  obtain ⟨names, hnames⟩ : ∃ names, names = order.toList (c₁.images x).aliases := ⟨_, rfl⟩
  have hstep : resolveDuplicate order title t x c =
      forAliases x (c₁.images x).aliases.card (handOver title t (base t).tag (base x).tag) names c₁ >>=
        fun c₂ ↦ .ok ((c₂.addAlias x (base t).tag).setByDigest (base t).digest t) := by
    rw [resolveDuplicate, if_neg (by simp [hdigest, hd]), if_neg (by simp [hpossible])]
    simp only [htag, hdigest, ← hc₁, ← hnames]
  have hsplit : ∀ {c'}, resolveDuplicate order title t x c = .ok c' → ∃ c₂,
      forAliases x (c₁.images x).aliases.card (handOver title t (base t).tag (base x).tag) names c₁ =
        .ok c₂ ∧ Keeps c₁ c₂ ∧ c' = (c₂.addAlias x (base t).tag).setByDigest (base t).digest t := by
    intro c' hc'
    obtain ⟨c₂, hloop, hlast⟩ := bind_eq_ok.1 (hstep ▸ hc')
    exact ⟨c₂, hloop, (forAliases_touches (fun _ _ _ ↦ handOver_touches) _ hloop).toKeeps,
      (Except.ok.inj hlast).symm⟩
  have hlast : ∀ c₂ : RSPImageCollection,
      Keeps c₂ ((c₂.addAlias x (base t).tag).setByDigest (base t).digest t) := fun c₂ ↦ by
    have hkeeps := (addAlias_touches c₂ x (base t).tag).toKeeps
    exact ⟨hkeeps.tag, hkeeps.digest, hkeeps.aliases, hkeeps.collection⟩
  by_cases htx : Knows base l t x
  swap
  · -- The first addition already is one.
    refine ⟨fun hharmless ↦ absurd hharmless.1 htx, fun _ c' hc' ↦ ?_⟩
    obtain ⟨c₂, -, hkeeps, rfl⟩ := hsplit hc'
    have hgrown : Grown l c₀.images c₁ := by
      refine ⟨t, ht, (base x).tag, ?_, fun hmem ↦ htx ((h.tag_mem hx).1 hmem)⟩
      rw [hc₁, addAlias_aliases, if_pos rfl]
      exact Finset.mem_insert_self _ _
    exact (hgrown.keeps hkeeps).keeps (hlast c₂)
  have hsame : c₁ = c := hc₁.trans (addAlias_of_mem ((hlisted hx).2 htx))
  subst hsame
  -- The loop over the aliases of the second image.
  have houtcome := fun name ↦ handOver_outcome h hc hs ht hx name
  obtain ⟨hgood, hbad⟩ := forAliases_outcome (l := l) (i := x) (fun _ _ _ ↦ handOver_touches) rfl names
    (fun name _ ↦ (houtcome name).1) fun name _ ↦ hc.images ▸ (houtcome name).2
  have hall : (∀ name ∈ names, ∀ y, c₁.collection.tagForTagName name = some y →
      name ≠ (base t).tag → Knows base l t y ∧ Knows base l y t ∧
        (c₀.images y).aliasTarget ≠ some (base x).tag) ↔
      ∀ y ∈ s, Knows base l x y → y ≠ t → Knows base l t y ∧ Knows base l y t ∧
        (c₀.images y).aliasTarget ≠ some (base x).tag := by
    simp only [hnames, order.mem_toList]
    constructor
    · intro hnamed y hys hxy hyt
      refine hnamed (base y).tag ((hlisted (hs y hys)).2 hxy) y (hc.finds y hys) fun htagEq ↦ hyt ?_
      exact h.pool.tag_inj y (h.lt y (hs y hys)) t (h.lt t ht) htagEq
    · intro hknown name hname y hlookup hne
      obtain ⟨hys, rfl⟩ := hc.refers name y hlookup
      exact hknown y hys ((hlisted (hs y hys)).1 hname) fun hyt ↦ hne (by rw [hyt])
  by_cases hloop : ∀ y ∈ s, Knows base l x y → y ≠ t → Knows base l t y ∧ Knows base l y t ∧
      (c₀.images y).aliasTarget ≠ some (base x).tag
  · by_cases hxt : Knows base l x t
    · refine ⟨fun _ ↦ ⟨c₁.setByDigest (base t).digest t, ?_, hc.images, rfl, rfl⟩, fun hbad ↦
        absurd ⟨htx, hxt, hloop⟩ hbad⟩
      rw [hstep, hgood (hall.2 hloop)]
      show Except.ok ((c₁.addAlias x (base t).tag).setByDigest (base t).digest t) = _
      rw [addAlias_of_mem ((hlisted ht).2 hxt)]
    · refine ⟨fun hharmless ↦ absurd hharmless.2.1 hxt, fun _ c' hc' ↦ ?_⟩
      obtain ⟨c₂, hc₂, -, rfl⟩ := hsplit hc'
      obtain rfl := Except.ok.inj ((hgood (hall.2 hloop)).symm.trans hc₂)
      refine ⟨x, hx, (base t).tag, ?_, fun hmem ↦ hxt ((h.tag_mem ht).1 hmem)⟩
      show (base t).tag ∈ ((c₁.addAlias x (base t).tag).images x).aliases
      rw [addAlias_aliases, if_pos rfl]
      exact Finset.mem_insert_self _ _
  · refine ⟨fun hharmless ↦ absurd hharmless.2.2 hloop, fun _ c' hc' ↦ ?_⟩
    obtain ⟨c₂, hc₂, -, rfl⟩ := hsplit hc'
    have hgrown := hbad (fun hnamed ↦ hloop (hall.1 hnamed)) c₂ hc₂
    rw [hc.images] at hgrown
    exact hgrown.keeps (hlast c₂)

/-- **Whether a possible alias can be resolved against the first image without a change.** -/
def HarmlessAlias (base : Heap RSPImage) (l s : List ℕ) (t i : ℕ) : Prop :=
  if (base t).isPossibleAlias then
    Knows base l i t ∧ Knows base l t i ∧ ∀ y ∈ s, Knows base l t y → y ≠ i → Knows base l y i
  else firstOf base l (base t).digest = some t

/-- Whether two images of one digest know each other. -/
theorem knows_iff {r : ℕ} (hx : x ∈ l) (hy : y ∈ l) (hne : x ≠ y)
    (hd : (base x).digest = (base y).digest) (hr : firstOf base l (base x).digest = some r) :
    Knows base l x y ↔ x = r ∨ if (base r).isPossibleAlias then y = r ∨ [x, y].Sublist l
      else if y = r then (base x).isPossibleAlias = false
      else (base x).isPossibleAlias ∨ (base y).isPossibleAlias := by
  rw [Knows]
  simp [hx, hy, hne, hd, hd ▸ hr]

theorem not_knows_self : ¬ Knows base l x x := fun h ↦ h.2.2.1 rfl

/-- **Resolving a possible alias against the first image**, where nothing has changed yet. -/
theorem resolveDuplicate_alias_outcome (order : SetOrder) (h : Settled title base l c₀)
    (hc : Rereads base c₀.images s c) (hs : ∀ x ∈ s, x ∈ l) (ht : t ∈ l) (hi : i ∈ l)
    (hd : (base i).digest = (base t).digest) (hip : (base i).isPossibleAlias = true) :
    Outcome l c₀.images (HarmlessAlias base l s t i)
      (fun c' ↦ c'.collection = c.collection ∧ c'.byDigest = c.byDigest)
      (resolveDuplicate order title i t c) := by
  have hlisted : ∀ {z w}, w ∈ l →
      ((base w).tag ∈ (c.images z).aliases ↔ Knows base l z w) := fun hw ↦ by
    rw [hc.images]
    exact h.tag_mem hw
  have htag : ∀ z, (c.images z).tag = (base z).tag := by
    rw [hc.images]
    exact h.tag
  have hdigest : ∀ z, (c.images z).digest = (base z).digest := by
    rw [hc.images]
    exact h.digest
  have hpossible : ∀ z, (c.images z).isPossibleAlias = (base z).isPossibleAlias := by
    rw [hc.images]
    exact h.possible
  rcases eq_or_ne i t with rfl | hne
  · -- An image that is resolved against itself lists its own tag.
    refine ⟨fun hharmless ↦ ?_, fun _ c' hc' ↦ ?_⟩
    · rw [HarmlessAlias, if_pos hip] at hharmless
      exact absurd hharmless.1 not_knows_self
    · rw [resolveDuplicate, if_neg (by simp), if_pos ((hpossible i).trans hip)] at hc'
      obtain ⟨c₁, hmark, hloop⟩ := bind_eq_ok.1 hc'
      have hgrown : Grown l c₀.images c₁ := by
        rw [markAlias, if_pos ((hpossible i).trans hip)] at hmark
        obtain rfl := Except.ok.inj hmark
        refine ⟨i, hi, (base i).tag, ?_, fun hmem ↦ not_knows_self ((h.tag_mem hi).1 hmem)⟩
        rw [htag]
        show (base i).tag ∈ (((c.addAlias i (base i).tag).addAlias i (base i).tag).images i).aliases
        rw [addAlias_aliases, if_pos rfl]
        exact Finset.mem_insert_self _ _
      exact hgrown.keeps (forAliases_touches (fun _ _ _ ↦ listUnder_touches) _ hloop).toKeeps
  have htagNe : ∀ {z w}, z ∈ l → w ∈ l → z ≠ w → (base z).tag ≠ (base w).tag :=
    fun hz hw hzw heq ↦ hzw (h.pool.tag_inj _ (h.lt _ hz) _ (h.lt _ hw) heq)
  obtain ⟨c', hok, hby, hcollection, hsize, himages, hmem⟩ := resolveDuplicate_of_alias_eq order
    title hne (by rw [hdigest, hdigest, hd]) ((hpossible i).trans hip)
    (fun name hname hlookup ↦ by
      obtain ⟨-, rfl⟩ := hc.refers name t hlookup
      exact not_knows_self ((hlisted ht).1 hname))
    fun hlookup ↦ by
      rw [htag] at hlookup
      exact htagNe ht hi hne.symm (hc.refers _ t hlookup).2
  rw [htag, htag, hpossible] at hmem
  refine ⟨fun hharmless ↦ ⟨c', hok, ?_, hcollection, hby⟩, fun hharmful c'' hc'' ↦ ?_⟩
  · -- All tags are listed already, and the image is resolved as it was.
    have hknown : (Knows base l t i) ∧
        (∀ name, (if (base t).isPossibleAlias = true then name = (base t).tag
          else name ∈ (c.images t).aliases ∧ name ≠ (base i).tag) → name ∈ (c.images i).aliases) ∧
        (∀ y ∈ s, Knows base l t y → y ≠ i → Knows base l y i) ∧
        marked title c i t = c.images i := by
      rcases htp : (base t).isPossibleAlias with _ | _
      · have hr : firstOf base l (base t).digest = some t := by
          simpa [HarmlessAlias, htp] using hharmless
        have hr' : firstOf base l (base i).digest = some t := hd ▸ hr
        refine ⟨(knows_first hr).2 ⟨hi, hne, hd⟩, fun name hname ↦ ?_, fun y _ hty hyi ↦ ?_, ?_⟩
        · rw [if_neg (by simp)] at hname
          have hlistedName := hname.1
          rw [hc.images, h.mem] at hlistedName
          obtain ⟨y, hty, rfl⟩ := hlistedName
          obtain ⟨hy, hyt, hyd⟩ := (knows_first hr).1 hty
          have hiy : i ≠ y := fun heq ↦ hname.2 (by rw [heq])
          refine (hlisted hy).2 ((knows_iff hi hy hiy (hd.trans hyd.symm) hr').2 (Or.inr ?_))
          simp [htp, hyt, hip]
        · obtain ⟨hy, -, hyd⟩ := (knows_first hr).1 hty
          refine (knows_iff hy hi hyi (hyd.trans hd.symm) (hyd ▸ hr)).2 (Or.inr ?_)
          simp [htp, hne, hip]
        · have hsettledT : settled title base l t = base t := by simp [settled, htp]
          have hsettledI : settled title base l i = (base i).resolved title (base t) := by
            rw [settled, if_pos ⟨hi, hip⟩, hr', Option.filter_some, if_pos (by simp [htp])]
            rfl
          rw [marked, hpossible, if_neg (by simp [htp]), hc.images, h.image i, h.image t, hsettledI,
            hsettledT, RSPImage.resolved_aliases, RSPImage.resolved_resolved]
      · rw [HarmlessAlias, if_pos htp] at hharmless
        refine ⟨hharmless.2.1, fun name hname ↦ ?_, hharmless.2.2, ?_⟩
        · rw [if_pos rfl] at hname
          exact hname ▸ (hlisted ht).2 hharmless.1
        · rw [marked, if_pos ((hpossible t).trans htp)]
    obtain ⟨hti, hnames, hothers, hmarked⟩ := hknown
    have haliases : ∀ x, (c'.images x).aliases = (c.images x).aliases := by
      intro x
      ext name
      rw [hmem]
      refine or_iff_left_of_imp ?_
      rintro (⟨rfl, rfl⟩ | ⟨rfl, hname⟩ | ⟨rfl, other, hother, hotherNe, hlookup⟩)
      · exact (hlisted hi).2 hti
      · exact hnames name hname
      · obtain ⟨hxs, rfl⟩ := hc.refers other x hlookup
        have hxi : x ≠ i := fun hxi ↦ hotherNe (by rw [hxi])
        exact (hlisted hi).2 (hothers x hxs ((hlisted (hs x hxs)).1 hother) hxi)
    have hcell : c'.images.cell = c.images.cell := by
      funext x
      refine (himages x).trans ?_
      rw [haliases]
      rcases eq_or_ne x i with rfl | hx
      · rw [if_pos rfl, hmarked]
      · rw [if_neg hx]
    rw [← hc.images]
    show (⟨c'.images.size, c'.images.cell⟩ : Heap RSPImage) = ⟨c.images.size, c.images.cell⟩
    rw [hcell, hsize]
  · obtain rfl := Except.ok.inj (hok.symm.trans hc'')
    rcases htp : (base t).isPossibleAlias with _ | _
    · -- The first target of the class is another one, which the image gets to know.
      obtain ⟨r, hr⟩ : ∃ r, firstOf base l (base t).digest = some r := by
        rw [← Option.ne_none_iff_exists', ne_eq, firstOf_eq_none]
        exact fun hnone ↦ hnone t ht rfl
      obtain ⟨hrl, hrd⟩ := firstOf_mem hr
      have hrt : r ≠ t := by
        rintro rfl
        exact hharmful (by rw [HarmlessAlias, htp]; exact hr)
      have hrp : (base r).isPossibleAlias = false := by
        rw [← Bool.not_eq_true]
        intro hrp
        have := h.first _ r hr hrp t ht rfl
        simp [htp] at this
      have hri : r ≠ i := fun heq ↦ by simp [heq, hip] at hrp
      refine ⟨i, hi, (base r).tag, (hmem i _).2 (Or.inr (Or.inr (Or.inl ⟨rfl, ?_⟩))), fun hknows ↦ ?_⟩
      · rw [htp, if_neg (by simp)]
        refine ⟨(hlisted hrl).2 ((knows_iff ht hrl hrt.symm hrd.symm hr).2 ?_), htagNe hrl hi hri⟩
        simp [hrp, htp]
      · have hir := (h.tag_mem hrl).1 hknows
        rw [knows_iff hi hrl hri.symm (hd.trans hrd.symm) (hd ▸ hr)] at hir
        simp [hrp, hip, hri.symm] at hir
    · rw [HarmlessAlias, if_pos htp] at hharmful
      by_cases hit : Knows base l i t
      · by_cases hti : Knows base l t i
        · have hothers : ¬ ∀ y ∈ s, Knows base l t y → y ≠ i → Knows base l y i :=
            fun hothers ↦ hharmful ⟨hit, hti, hothers⟩
          push Not at hothers
          obtain ⟨y, hys, hty, hyi, hnot⟩ := hothers
          exact ⟨y, hs y hys, (base i).tag, (hmem y _).2 (Or.inr (Or.inr (Or.inr ⟨rfl, (base y).tag,
            (hlisted (hs y hys)).2 hty, htagNe (hs y hys) hi hyi, hc.finds y hys⟩))),
            fun hknows ↦ hnot ((h.tag_mem hi).1 hknows)⟩
        · exact ⟨t, ht, (base i).tag, (hmem t _).2 (Or.inr (Or.inl ⟨rfl, rfl⟩)),
            fun hknows ↦ hti ((h.tag_mem hi).1 hknows)⟩
      · exact ⟨i, hi, (base t).tag, (hmem i _).2 (Or.inr (Or.inr (Or.inl ⟨rfl, by rw [if_pos htp]⟩))),
          fun hknows ↦ hit ((h.tag_mem ht).1 hknows)⟩

/-! ### Whole passes -/

/-- **Every step of indexing a list is good**, after `done`: each image with the first of its digest. -/
def Chain (base : Heap RSPImage) (good : ℕ → ℕ → Prop) : List ℕ → List ℕ → Prop
  | _, [] => True
  | done, x :: rest => (∀ t, firstOf base done (base x).digest = some t → good t x) ∧
      Chain base good (done ++ [x]) rest

theorem chain_append {good : ℕ → ℕ → Prop} {rest' : List ℕ} (rest : List ℕ) : ∀ done : List ℕ,
    Chain base good done (rest ++ rest') ↔
      Chain base good done rest ∧ Chain base good (done ++ rest) rest' := by
  induction rest with
  | nil => simp [Chain]
  | cons x rest ih =>
    intro done
    simp [Chain, ih, and_assoc]

variable (order : SetOrder)

/-- A state of a pass: nothing has changed, and the images `done` are indexed. -/
structure Passing (base H : Heap RSPImage) (s done : List ℕ) (c : RSPImageCollection) : Prop
    extends Rereads base H s c where
  byDigest : ∀ d, c.byDigest d = firstOf base done d

/-- An image that is the first of its digest. -/
theorem Passing.index_first {done : List ℕ} (hc : Passing base c₀.images s done c)
    (hnone : firstOf base done (base i).digest = none) (himages : c'.images = c.images)
    (hcollection : c'.collection = c.collection)
    (hby : c'.byDigest = Function.update c.byDigest (base i).digest (some i)) :
    Passing base c₀.images s (done ++ [i]) c' where
  images := himages.trans hc.images
  finds x hx := by
    rw [hcollection]
    exact hc.finds x hx
  refers name x hx := by
    rw [hcollection] at hx
    exact hc.refers name x hx
  byDigest d := by
    rw [hby, firstOf_append]
    rcases eq_or_ne d (base i).digest with rfl | hd
    · rw [Function.update_self, hnone, if_pos rfl]
      rfl
    · rw [Function.update_of_ne hd, hc.byDigest, if_neg hd.symm, Option.or_none]

/-- An image that is not the first of its digest. -/
theorem Passing.index_other {done : List ℕ} (hc : Passing base c₀.images s done c)
    (ht : firstOf base done (base i).digest = some t) (himages : c'.images = c₀.images)
    (hcollection : c'.collection = c.collection)
    (hby : ∀ d, c'.byDigest d = c.byDigest d) : Passing base c₀.images s (done ++ [i]) c' where
  images := himages
  finds x hx := by
    rw [hcollection]
    exact hc.finds x hx
  refers name x hx := by
    rw [hcollection] at hx
    exact hc.refers name x hx
  byDigest d := by
    rw [hby, hc.byDigest, firstOf_append]
    rcases eq_or_ne (base i).digest d with rfl | hd
    · rw [ht]
      rfl
    · rw [if_neg hd, Option.or_none]

/-- **The first pass** over images that are classified. -/
theorem firstPass_outcome (h : Settled title base l c₀) (hs : ∀ x ∈ s, x ∈ l) (rest : List ℕ) :
    ∀ (done : List ℕ) (c : RSPImageCollection), Passing base c₀.images s done c →
    (∀ x ∈ done ++ rest, x ∈ s) → (∀ x ∈ done, (base x).isPossibleAlias = false) →
    let good := Chain base (HarmlessTarget base l s c₀) done
      (rest.filter fun x ↦ !(base x).isPossibleAlias)
    (good → ∃ c', firstPass order title rest c =
        .ok (rest.filter fun x ↦ (base x).isPossibleAlias, c') ∧
      Passing base c₀.images s (done ++ rest.filter fun x ↦ !(base x).isPossibleAlias) c') ∧
    (¬ good → ∀ later c', firstPass order title rest c = .ok (later, c') → Grown l c₀.images c') := by
  induction rest with
  | nil =>
    intro done c hc _ _
    exact ⟨fun _ ↦ ⟨c, rfl, by simpa using hc⟩, fun hbad ↦ absurd trivial hbad⟩
  | cons i rest ih =>
    intro done c hc hmem htargets
    have hdigest : (c.images i).digest = (base i).digest := by rw [hc.images, h.digest]
    have hsub : ∀ x ∈ done ++ rest, x ∈ s := fun x hx ↦ hmem x (by
      rcases List.mem_append.1 hx with hx | hx
      · exact List.mem_append_left _ hx
      · exact List.mem_append_right _ (List.mem_cons_of_mem _ hx))
    rcases hip : (base i).isPossibleAlias with _ | _
    · have htargets' : ∀ x ∈ done ++ [i], (base x).isPossibleAlias = false := by
        intro x hx
        rcases List.mem_append.1 hx with hx | hx
        · exact htargets x hx
        · rw [List.mem_singleton.1 hx, hip]
      have hmem' : ∀ x ∈ (done ++ [i]) ++ rest, x ∈ s := by simpa using hmem
      have hpossible : (c.images i).isPossibleAlias = false := by rw [hc.images, h.possible, hip]
      rw [List.filter_cons_of_pos (by simp [hip]), List.filter_cons_of_neg (by simp [hip])]
      rcases ht : firstOf base done (base i).digest with _ | t
      · -- The first image of its digest changes nothing.
        have hstep : firstPass order title (i :: rest) c =
            firstPass order title rest (c.setByDigest (base i).digest i) := by
          simp [firstPass, hpossible, hdigest, hc.byDigest, ht]
        obtain ⟨hgood, hbad⟩ := ih (done ++ [i]) (c.setByDigest (base i).digest i)
          (hc.index_first ht rfl rfl rfl) hmem' htargets'
        rw [hstep]
        refine ⟨fun hchain ↦ ?_, fun hchain ↦ hbad fun hrest ↦ hchain ⟨?_, hrest⟩⟩
        · obtain ⟨c', hok, hpassing⟩ := hgood hchain.2
          exact ⟨c', hok, by simpa using hpassing⟩
        · simp [ht]
      · obtain ⟨htdone, htd⟩ := firstOf_mem ht
        have hstep : firstPass order title (i :: rest) c =
            resolveDuplicate order title t i c >>= firstPass order title rest := by
          simp [firstPass, hpossible, hdigest, hc.byDigest, ht]
        have htl : t ∈ l := hs t (hmem t (List.mem_append_left _ htdone))
        have hil : i ∈ l := hs i (hmem i (by simp))
        obtain ⟨hsame, hgrown⟩ := resolveDuplicate_target_outcome order h hc.toRereads hs htl hil htd
          (htargets t htdone)
        have hnext : ∀ c₁ : RSPImageCollection, c₁.images = c₀.images → c₁.collection = c.collection →
            c₁.byDigest = Function.update c.byDigest (base t).digest (some t) →
            Passing base c₀.images s (done ++ [i]) c₁ := fun c₁ himages hcollection hby ↦ by
          refine hc.index_other ht himages hcollection fun d ↦ ?_
          rw [hby, htd]
          rcases eq_or_ne d (base i).digest with rfl | hd
          · rw [Function.update_self, hc.byDigest, ht]
          · rw [Function.update_of_ne hd]
        rw [hstep]
        refine ⟨fun hchain ↦ ?_, fun hchain later c' hc' ↦ ?_⟩
        · obtain ⟨c₁, hok, himages, hcollection, hby⟩ := hsame (hchain.1 t ht)
          obtain ⟨c', hok', hpassing⟩ :=
            (ih (done ++ [i]) c₁ (hnext c₁ himages hcollection hby) hmem' htargets').1 hchain.2
          refine ⟨c', ?_, by simpa using hpassing⟩
          rw [hok]
          exact hok'
        · obtain ⟨c₁, hresolve, hrest⟩ := bind_eq_ok.1 hc'
          by_cases hharmless : HarmlessTarget base l s c₀ t i
          · obtain ⟨c₂, hok, himages, hcollection, hby⟩ := hsame hharmless
            obtain rfl := Except.ok.inj (hok.symm.trans hresolve)
            refine (ih (done ++ [i]) c₂ (hnext c₂ himages hcollection hby) hmem' htargets').2
              (fun hlater ↦ hchain ⟨?_, hlater⟩) later c' hrest
            intro t' ht'
            obtain rfl := Option.some.inj (ht.symm.trans ht')
            exact hharmless
          · exact (hgrown hharmless c₁ hresolve).keeps (firstPass_keeps rest hrest)
    · have hstep : firstPass order title (i :: rest) c =
          firstPass order title rest c >>= fun r ↦ pure (i :: r.1, r.2) := by
        rw [firstPass, if_pos (by rw [hc.images, h.possible, hip])]
      rw [List.filter_cons_of_neg (by simp [hip]), hstep,
        List.filter_cons_of_pos (p := fun x ↦ (base x).isPossibleAlias) hip]
      obtain ⟨hgood, hbad⟩ := ih done c hc hsub htargets
      refine ⟨fun hchain ↦ ?_, fun hchain later c' hc' ↦ ?_⟩
      · obtain ⟨c', hok, hpassing⟩ := hgood hchain
        exact ⟨c', by rw [hok]; rfl, hpassing⟩
      · obtain ⟨r, hrest, hlast⟩ := bind_eq_ok.1 hc'
        cases hlast
        exact hbad hchain r.1 r.2 hrest

/-- **The second pass** over images that are classified. -/
theorem secondPass_outcome (h : Settled title base l c₀) (hs : ∀ x ∈ s, x ∈ l) (rest : List ℕ) :
    ∀ (done : List ℕ) (c : RSPImageCollection), Passing base c₀.images s done c →
    (∀ x ∈ done ++ rest, x ∈ s) → (∀ x ∈ rest, (base x).isPossibleAlias = true) →
    let good := Chain base (HarmlessAlias base l s) done rest
    (good → ∃ c', secondPass order title rest c = .ok c' ∧
      Passing base c₀.images s (done ++ rest) c') ∧
    (¬ good → ∀ c', secondPass order title rest c = .ok c' → Grown l c₀.images c') := by
  induction rest with
  | nil =>
    intro done c hc _ _
    exact ⟨fun _ ↦ ⟨c, rfl, by simpa using hc⟩, fun hbad ↦ absurd trivial hbad⟩
  | cons i rest ih =>
    intro done c hc hmem haliases
    have hdigest : (c.images i).digest = (base i).digest := by rw [hc.images, h.digest]
    have hmem' : ∀ x ∈ (done ++ [i]) ++ rest, x ∈ s := by simpa using hmem
    have haliases' : ∀ x ∈ rest, (base x).isPossibleAlias = true := fun x hx ↦
      haliases x (List.mem_cons_of_mem _ hx)
    rcases ht : firstOf base done (base i).digest with _ | t
    · -- The first image of its digest changes nothing.
      obtain ⟨c₁, hc₁⟩ : ∃ c₁, c₁ =
        (c.appendUnresolved (base i).digest i).setByDigest (base i).digest i := ⟨_, rfl⟩
      have hstep : secondPass order title (i :: rest) c = secondPass order title rest c₁ := by
        simp [secondPass, hdigest, hc.byDigest, ht, hc₁]
      obtain ⟨hgood, hbad⟩ := ih (done ++ [i]) c₁
        (hc.index_first ht (by rw [hc₁]; rfl) (by rw [hc₁]; rfl) (by rw [hc₁]; rfl)) hmem' haliases'
      rw [hstep]
      refine ⟨fun hchain ↦ ?_, fun hchain ↦ hbad fun hrest ↦ hchain ⟨?_, hrest⟩⟩
      · obtain ⟨c', hok, hpassing⟩ := hgood hchain.2
        exact ⟨c', hok, by simpa using hpassing⟩
      · simp [ht]
    · obtain ⟨htdone, htd⟩ := firstOf_mem ht
      have hstep : secondPass order title (i :: rest) c =
          resolveDuplicate order title i t c >>= secondPass order title rest := by
        simp [secondPass, hdigest, hc.byDigest, ht]
      have htl : t ∈ l := hs t (hmem t (List.mem_append_left _ htdone))
      have hil : i ∈ l := hs i (hmem i (by simp))
      obtain ⟨hsame, hgrown⟩ := resolveDuplicate_alias_outcome order h hc.toRereads hs htl hil
        htd.symm (haliases i List.mem_cons_self)
      rw [hstep]
      refine ⟨fun hchain ↦ ?_, fun hchain c' hc' ↦ ?_⟩
      · obtain ⟨c₁, hok, himages, hcollection, hby⟩ := hsame (hchain.1 t ht)
        have hpassing := hc.index_other ht himages hcollection fun d ↦ by rw [hby]
        obtain ⟨c', hok', hpassing'⟩ := (ih (done ++ [i]) c₁ hpassing hmem' haliases').1 hchain.2
        refine ⟨c', ?_, by simpa using hpassing'⟩
        rw [hok]
        exact hok'
      · obtain ⟨c₁, hresolve, hrest⟩ := bind_eq_ok.1 hc'
        by_cases hharmless : HarmlessAlias base l s t i
        · obtain ⟨c₂, hok, himages, hcollection, hby⟩ := hsame hharmless
          obtain rfl := Except.ok.inj (hok.symm.trans hresolve)
          have hpassing := hc.index_other ht himages hcollection fun d ↦ by rw [hby]
          refine (ih (done ++ [i]) c₂ hpassing hmem' haliases').2
            (fun hlater ↦ hchain ⟨?_, hlater⟩) c' hrest
          intro t' ht'
          obtain rfl := Option.some.inj (ht.symm.trans ht')
          exact hharmless
        · exact (hgrown hharmless c₁ hresolve).keeps (secondPass_keeps rest hrest)

/-- The chain condition, by digest. -/
theorem chain_iff {good : ℕ → ℕ → Prop} (rest : List ℕ) : ∀ done : List ℕ,
    Chain base good done rest ↔ ∀ d t others, (firstOf base done d).toList ++
      rest.filter (fun x ↦ (base x).digest = d) = t :: others → ∀ x ∈ others, good t x := by
  induction rest with
  | nil =>
    intro done
    refine iff_of_true trivial fun d t others hlist x hx ↦ ?_
    rw [List.filter_nil, List.append_nil] at hlist
    rcases hr : firstOf base done d with _ | t'
    · rw [hr] at hlist
      cases hlist
    · rw [hr] at hlist
      obtain ⟨-, rfl⟩ := List.cons_eq_cons.1 hlist
      cases hx
  | cons i rest ih =>
    intro done
    -- One digest more has a first image, unless it had one.
    have hlist : ∀ d, (firstOf base (done ++ [i]) d).toList ++
          rest.filter (fun x ↦ (base x).digest = d) =
        if (base i).digest = d ∧ (firstOf base done d).isSome then
          (firstOf base done d).toList ++ rest.filter fun x ↦ (base x).digest = d
        else (firstOf base done d).toList ++ (i :: rest).filter fun x ↦ (base x).digest = d := by
      intro d
      rw [firstOf_append]
      by_cases hd : (base i).digest = d
      · rcases firstOf base done d with _ | t <;> simp [hd]
      · simp [hd]
    rw [Chain, ih]
    constructor
    · rintro ⟨hfirst, hrest⟩ d t others hothers x hx
      by_cases hd : (base i).digest = d ∧ (firstOf base done d).isSome
      · obtain ⟨t', ht'⟩ := Option.isSome_iff_exists.1 hd.2
        rw [ht', List.filter_cons_of_pos (by simpa using hd.1)] at hothers
        obtain ⟨rfl, rfl⟩ := List.cons_eq_cons.1 hothers
        rcases List.mem_cons.1 hx with rfl | hx
        · exact hfirst t' (by rw [hd.1, ht'])
        · refine hrest d t' _ ?_ x hx
          rw [hlist, if_pos hd, ht']
          rfl
      · exact hrest d t others (by rw [hlist, if_neg hd, hothers]) x hx
    · refine fun hall ↦ ⟨fun t ht ↦ ?_, fun d t others hothers x hx ↦ ?_⟩
      · refine hall (base i).digest t (i :: rest.filter fun x ↦ (base x).digest = (base i).digest)
          ?_ i List.mem_cons_self
        rw [ht, List.filter_cons_of_pos (by simp)]
        rfl
      · rw [hlist] at hothers
        by_cases hd : (base i).digest = d ∧ (firstOf base done d).isSome
        · rw [if_pos hd] at hothers
          obtain ⟨t', ht'⟩ := Option.isSome_iff_exists.1 hd.2
          rw [ht'] at hothers
          obtain ⟨rfl, rfl⟩ := List.cons_eq_cons.1 hothers
          refine hall d t' (i :: rest.filter fun x ↦ (base x).digest = d) ?_ x
            (List.mem_cons_of_mem _ hx)
          rw [ht', List.filter_cons_of_pos (by simpa using hd.1)]
          rfl
        · rw [if_neg hd] at hothers
          exact hall d t others hothers x hx

/-- Chains of two conditions that agree. -/
theorem Chain.congr {good good' : ℕ → ℕ → Prop} (rest : List ℕ)
    (hgood : ∀ x ∈ rest, ∀ t, good t x ↔ good' t x) :
    ∀ done : List ℕ, Chain base good done rest ↔ Chain base good' done rest := by
  induction rest with
  | nil => exact fun done ↦ Iff.rfl
  | cons i rest ih =>
    intro done
    rw [Chain, Chain, ih fun x hx ↦ hgood x (List.mem_cons_of_mem _ hx)]
    simp only [hgood i List.mem_cons_self]

/-- **Whether an image can be resolved against the first one of its digest without a change.** -/
def Harmless (base : Heap RSPImage) (l s : List ℕ) (c₀ : RSPImageCollection) (t x : ℕ) : Prop :=
  if (base x).isPossibleAlias then HarmlessAlias base l s t x else HarmlessTarget base l s c₀ t x

/-- **Building a collection of classified images** changes none of them exactly if every step is
harmless. -/
theorem init_outcome [Ord Version] (h : Settled title base l c₀) (hs : ∀ x ∈ s, x ∈ l) :
    (Chain base (Harmless base l s c₀) [] (indexOrder base s) →
      ∃ c', init order title c₀.images s = .ok c' ∧ c'.images = c₀.images) ∧
    (¬ Chain base (Harmless base l s c₀) [] (indexOrder base s) →
      ∀ c', init order title c₀.images s = .ok c' → Grown l c₀.images c') := by
  obtain ⟨collection, hreindex, -, hindexed⟩ :=
    reindexTags_spec s ⟨c₀.images, fun _ ↦ none, fun _ ↦ [], .empty⟩
  obtain ⟨c₁, hc₁⟩ : ∃ c₁ : RSPImageCollection,
    c₁ = ⟨c₀.images, fun _ ↦ none, fun _ ↦ [], collection⟩ := ⟨_, rfl⟩
  have himages : c₁.images = c₀.images := by rw [hc₁]
  have htag : ∀ x, (c₁.images x).tag = (base x).tag := by
    rw [himages]
    exact h.tag
  have hlt : ∀ x ∈ s, x < base.size := fun x hx ↦ h.lt x (hs x hx)
  have hindexed₁ : RSPImageTagCollection.Indexed c₁.view c₁.collection s := by
    rw [hc₁]
    exact hindexed
  have hpassing : Passing base c₀.images s [] c₁ := by
    refine ⟨⟨himages, finds_of_indexed h.pool htag hlt hindexed₁, fun name x hx ↦ ?_⟩, fun d ↦ ?_⟩
    · rw [RSPImageTagCollection.tagForTagName, hindexed₁.byTag] at hx
      have hname : (c₁.view x).tag = name := by simpa using List.find?_some hx
      exact ⟨List.mem_reverse.1 (List.mem_of_find?_eq_some hx), (htag x).symm.trans hname⟩
    · rw [hc₁]
      rfl
  obtain ⟨targets, htargets⟩ : ∃ targets, targets = s.filter fun x ↦ !(base x).isPossibleAlias :=
    ⟨_, rfl⟩
  obtain ⟨aliases, haliases⟩ : ∃ aliases, aliases = s.filter fun x ↦ (base x).isPossibleAlias :=
    ⟨_, rfl⟩
  have hstep : init order title c₀.images s = firstPass order title s c₁ >>= fun r ↦
      secondPass order title r.1 r.2 >>= reindexTags s := by
    have hall : s.filter (fun i ↦ (none : Option ℕ) = none ∨ (c₀.images i).cycle = none) = s := by
      simp
    have hreindex₁ : reindexTags s ⟨c₀.images, fun _ ↦ none, fun _ ↦ [], .empty⟩ = .ok c₁ := by
      rw [hreindex, hc₁]
    rw [init, replaceContents]
    show (reindexTags (s.filter fun i ↦ (none : Option ℕ) = none ∨ (c₀.images i).cycle = none)
      ⟨c₀.images, fun _ ↦ none, fun _ ↦ [], .empty⟩ >>= _) = _
    rw [hall, hreindex₁]
    rfl
  -- The chain of all steps is that of the two passes.
  have hchain : Chain base (Harmless base l s c₀) [] (indexOrder base s) ↔
      Chain base (HarmlessTarget base l s c₀) [] targets ∧
        Chain base (HarmlessAlias base l s) targets aliases := by
    rw [indexOrder, chain_append, List.nil_append, ← htargets, ← haliases]
    refine and_congr (Chain.congr _ (fun x hx t ↦ ?_) _) (Chain.congr _ (fun x hx t ↦ ?_) _)
    · rw [htargets] at hx
      rw [Harmless, if_neg (by simpa using (List.mem_filter.1 hx).2)]
    · rw [haliases] at hx
      rw [Harmless, if_pos (List.mem_filter.1 hx).2]
  have hfirst := firstPass_outcome order h hs s [] c₁ hpassing (by simp) (by simp)
  rw [← htargets, ← haliases, List.nil_append] at hfirst
  have hmem : ∀ x ∈ targets ++ aliases, x ∈ s := fun x hx ↦ by
    rw [htargets, haliases] at hx
    exact mem_indexOrder.1 hx
  have hpossible : ∀ x ∈ aliases, (base x).isPossibleAlias = true := fun x hx ↦ by
    rw [haliases] at hx
    exact (List.mem_filter.1 hx).2
  rw [hchain, hstep]
  constructor
  · rintro ⟨hgood, hgood'⟩
    obtain ⟨c₂, hok, hc₂⟩ := hfirst.1 hgood
    obtain ⟨c₃, hok', hc₃⟩ :=
      (secondPass_outcome order h hs aliases targets c₂ hc₂ hmem hpossible).1 hgood'
    obtain ⟨collection', hreindex', -, -⟩ := reindexTags_spec s c₃
    refine ⟨{ c₃ with collection := collection' }, ?_, hc₃.images⟩
    rw [hok]
    show (secondPass order title aliases c₂ >>= reindexTags s) = _
    rw [hok']
    exact hreindex'
  · intro hbad c' hc'
    obtain ⟨⟨later, c₂⟩, hpass, hlater⟩ := bind_eq_ok.1 hc'
    obtain ⟨c₃, hpass', hlast⟩ := bind_eq_ok.1 hlater
    have hpass' : secondPass order title later c₂ = .ok c₃ := hpass'
    obtain ⟨collection', hreindex', -, -⟩ := reindexTags_spec s c₃
    obtain rfl := Except.ok.inj (hreindex'.symm.trans hlast)
    show Grown l c₀.images c₃
    by_cases hgood : Chain base (HarmlessTarget base l s c₀) [] targets
    · obtain ⟨c₂', hok, hc₂⟩ := hfirst.1 hgood
      obtain ⟨hlaterEq, hc₂Eq⟩ := Prod.mk.inj (Except.ok.inj (hok.symm.trans hpass))
      rw [← hlaterEq, ← hc₂Eq] at hpass'
      exact (secondPass_outcome order h hs aliases targets c₂' hc₂ hmem hpossible).2
        (fun hgood' ↦ hbad ⟨hgood, hgood'⟩) c₃ hpass'
    · exact (hfirst.2 hgood later c₂ hpass).keeps (secondPass_keeps later hpass')

end Steps

end RSPImageCollection

end Nublado.Images
