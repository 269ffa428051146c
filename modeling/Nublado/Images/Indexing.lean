import Nublado.Images.Duplicates

/-!
# The index of images by digest

An abstract account of what a collection knows of each digest, and the proof that the constructor and
`add` follow it.

* `Standing` is the abstract state of one digest. The one that should not exist is `stale`: a target
  was added while the only image of its digest was a possible alias that had itself been added singly,
  so that it was recorded in no list of unresolved aliases.
* `Standing.ofImages` is what indexing a list of images makes of every digest, and `Standings.add`
  what adding one more image does. Adding a target whose digest is `pending` reindexes the whole
  collection, which also repairs what was `stale` and records what was `lone`.
* `Stands` relates an abstract state to a collection, and `replaceContents_spec` and `add_spec` are
  the simulation: neither method raises, and both keep the relation.
-/

namespace Nublado.Images

/-- What a collection knows of a digest. -/
inductive Standing
  /-- No image has the digest. -/
  | absent
  /-- One possible alias has it, which is recorded as unresolved nowhere. -/
  | lone
  /-- Only possible aliases have it, and there is a list of unresolved ones. -/
  | pending
  /-- A target has it, and every possible alias is resolved to the target. -/
  | resolved
  /-- A target has it, and some possible alias is not resolved. -/
  | stale
  deriving DecidableEq

namespace Standing

/-- What indexing makes of a digest, given whether images have it and whether targets have it. -/
@[grind =] def index (present target : Bool) : Standing :=
  if target then resolved else if present then pending else absent

/-- Whether images have the digest. -/
@[grind =] def present : Standing → Bool
  | absent => false
  | _ => true

/-- Whether targets have the digest. -/
@[grind =] def target : Standing → Bool
  | resolved | stale => true
  | _ => false

/-- What adding an image of the digest itself does, without reindexing. -/
@[grind =] def join (possible : Bool) : Standing → Standing
  | absent => if possible then lone else resolved
  | lone => if possible then pending else stale
  | pending => if possible then pending else resolved
  | resolved => resolved
  | stale => stale

end Standing

/-- What a collection knows of every digest. -/
abbrev Standings := String → Standing

/-- What indexing the images makes of every digest. -/
def Standings.ofImages (images : List RSPImage) : Standings := fun d ↦
  .index (images.any fun image ↦ image.digest = d)
    (images.any fun image ↦ image.digest = d ∧ image.isPossibleAlias = false)

/-- What adding an image does. Adding a target to a digest with unresolved aliases reindexes
everything. -/
def Standings.add (s : Standings) (image : RSPImage) : Standings := fun d ↦
  let s' := if d = image.digest then (s d).join image.isPossibleAlias else s d
  if s image.digest = .pending ∧ image.isPossibleAlias = false then
    .index s'.present s'.target
  else s'

/-- A digest that no image has stays absent. -/
theorem Standings.add_absent {s : Standings} {image : RSPImage} {d : String} (h : s d = .absent)
    (hne : image.digest ≠ d) : s.add image d = .absent := by
  rw [Standings.add, if_neg hne.symm, h]
  split <;> rfl

/-- Adding an image that needs no reindexing changes its digest's standing only. -/
theorem Standings.add_of_ne {s : Standings} {image : RSPImage}
    (h : s image.digest = .pending → image.isPossibleAlias = true) (d : String) :
    s.add image d = if d = image.digest then (s d).join image.isPossibleAlias else s d := by
  rw [Standings.add, if_neg]
  rintro ⟨hpending, hpossible⟩
  simp [h hpending] at hpossible

namespace RSPImageCollection

variable {base : Heap RSPImage} {c c' : RSPImageCollection} {m m' : List ℕ} {d e : String} {i x : ℕ}

/-- The images `m` of a collection stand as the abstract state of the digest says. -/
def Stands (base : Heap RSPImage) (m : List ℕ) (c : RSPImageCollection) (d : String) :
    Standing → Prop
  | .absent => c.byDigest d = none ∧ c.unresolvedAliases d = [] ∧ ∀ x ∈ m, (base x).digest ≠ d
  | .lone => ∃ i ∈ m, c.byDigest d = some i ∧ c.unresolvedAliases d = [] ∧ (base i).digest = d ∧
      (base i).isPossibleAlias = true ∧ (c.images i).aliasTarget = none ∧
      ∀ x ∈ m, (base x).digest = d → x = i
  | .pending => ∃ i ∈ m, c.byDigest d = some i ∧ c.unresolvedAliases d ≠ [] ∧ (base i).digest = d ∧
      ∀ x ∈ m, (base x).digest = d → (base x).isPossibleAlias = true
  | .resolved => ∃ i ∈ m, c.byDigest d = some i ∧ c.unresolvedAliases d = [] ∧ (base i).digest = d ∧
      (base i).isPossibleAlias = false ∧
      ∀ x ∈ m, (base x).digest = d → (base x).isPossibleAlias = true →
        (c.images x).status = (.alias, some (base i).tag) ∧ (base x).tag ∈ (c.images i).aliases
  | .stale => ∃ i ∈ m, c.byDigest d = some i ∧ c.unresolvedAliases d = [] ∧ (base i).digest = d ∧
      (base i).isPossibleAlias = false ∧
      ∃ x ∈ m, (base x).digest = d ∧ (base x).isPossibleAlias = true ∧
        (c.images x).aliasTarget = none

theorem Stands.congr {s : Standing} (h : Stands base m c d s) (hm : ∀ x, x ∈ m ↔ x ∈ m') :
    Stands base m' c d s := by
  cases s <;> simpa only [Stands, hm] using h

/-- The abstract state says whether images have the digest. -/
theorem Stands.present_iff {s : Standing} (h : Stands base m c d s) :
    s.present = true ↔ ∃ x ∈ m, (base x).digest = d := by
  cases s with
  | absent => simpa [Standing.present] using h.2.2
  | lone =>
    obtain ⟨i, hi, -, -, hd, -⟩ := h
    simpa [Standing.present] using ⟨i, hi, hd⟩
  | pending =>
    obtain ⟨i, hi, -, -, hd, -⟩ := h
    simpa [Standing.present] using ⟨i, hi, hd⟩
  | resolved =>
    obtain ⟨i, hi, -, -, hd, -⟩ := h
    simpa [Standing.present] using ⟨i, hi, hd⟩
  | stale =>
    obtain ⟨i, hi, -, -, hd, -⟩ := h
    simpa [Standing.present] using ⟨i, hi, hd⟩

/-- The abstract state says whether targets have the digest. -/
theorem Stands.target_iff {s : Standing} (h : Stands base m c d s) :
    s.target = true ↔ ∃ x ∈ m, (base x).digest = d ∧ (base x).isPossibleAlias = false := by
  cases s with
  | absent =>
    have := h.2.2
    simp only [Standing.target, Bool.false_eq_true, false_iff, not_exists, not_and]
    exact fun x hx hd ↦ absurd hd (this x hx)
  | lone =>
    obtain ⟨i, hi, -, -, -, hpossible, -, honly⟩ := h
    simp only [Standing.target, Bool.false_eq_true, false_iff, not_exists, not_and]
    intro x hx hd
    rw [honly x hx hd, hpossible]
    simp
  | pending =>
    obtain ⟨i, hi, -, -, -, hpossible⟩ := h
    simp only [Standing.target, Bool.false_eq_true, false_iff, not_exists, not_and]
    intro x hx hd
    rw [hpossible x hx hd]
    simp
  | resolved =>
    obtain ⟨i, hi, -, -, hd, hpossible, -⟩ := h
    simpa [Standing.target] using ⟨i, hi, hd, hpossible⟩
  | stale =>
    obtain ⟨i, hi, -, -, hd, hpossible, -⟩ := h
    simpa [Standing.target] using ⟨i, hi, hd, hpossible⟩

/-- **Frame rule.** A change that concerns another digest, and an image more of another digest, leave
the standing of a digest alone. -/
theorem Stands.frame {s : Standing} (h : Stands base m c e s) (hchanges : Changes base d c c')
    (hne : e ≠ d) (hm : ∀ x, x ∈ m' ↔ x ∈ m ∨ x = i) (hi : (base i).digest = d) :
    Stands base m' c' e s := by
  have hother : ∀ x ∈ m', (base x).digest = e → x ∈ m := by
    intro x hx hd
    rcases (hm x).1 hx with hx | rfl
    · exact hx
    · exact absurd (hd.symm.trans hi) hne
  have hmem : ∀ x ∈ m, x ∈ m' := fun x hx ↦ (hm x).2 (Or.inl hx)
  have himages : ∀ x, (base x).digest = e → c'.images x = c.images x := fun x hx ↦
    hchanges.images x (hx ▸ hne)
  have hbyDigest := hchanges.byDigest e hne
  have hunresolved := hchanges.unresolved e hne
  cases s with
  | absent =>
    exact ⟨hbyDigest.trans h.1, hunresolved.trans h.2.1,
      fun x hx hd ↦ h.2.2 x (hother x hx hd) hd⟩
  | lone =>
    obtain ⟨i, hi, hby, hun, hd, hpossible, htarget, honly⟩ := h
    exact ⟨i, hmem i hi, hbyDigest.trans hby, hunresolved.trans hun, hd, hpossible,
      by rw [himages i hd, htarget], fun x hx hxd ↦ honly x (hother x hx hxd) hxd⟩
  | pending =>
    obtain ⟨i, hi, hby, hun, hd, hpossible⟩ := h
    exact ⟨i, hmem i hi, hbyDigest.trans hby, hunresolved ▸ hun, hd,
      fun x hx hxd ↦ hpossible x (hother x hx hxd) hxd⟩
  | resolved =>
    obtain ⟨i, hi, hby, hun, hd, hpossible, hall⟩ := h
    refine ⟨i, hmem i hi, hbyDigest.trans hby, hunresolved.trans hun, hd, hpossible, ?_⟩
    intro x hx hxd
    rw [himages x hxd, himages i hd]
    exact hall x (hother x hx hxd) hxd
  | stale =>
    obtain ⟨i, hi, hby, hun, hd, hpossible, x, hx, hxd, hxpossible, hxtarget⟩ := h
    exact ⟨i, hmem i hi, hbyDigest.trans hby, hunresolved.trans hun, hd, hpossible, x, hmem x hx, hxd,
      hxpossible, by rw [himages x hxd, hxtarget]⟩

/-! ### Adding an image to a digest -/

/-- The tag collection finds the images `m` under their tags. -/
def Finds (base : Heap RSPImage) (m : List ℕ) (c : RSPImageCollection) : Prop :=
  ∀ x ∈ m, c.collection.tagForTagName (base x).tag = some x

/-- What is found under a digest is an image of that digest. -/
theorem Stands.byDigest_mem {s : Standing} {other : ℕ} (h : Stands base m c d s)
    (hother : c.byDigest d = some other) : other ∈ m ∧ (base other).digest = d := by
  cases s with
  | absent =>
    rw [h.1] at hother
    cases hother
  | lone | pending | resolved | stale =>
    obtain ⟨i, hi, hby, -, hd, -⟩ := h
    obtain rfl := Option.some.inj (hby.symm.trans hother)
    exact ⟨hi, hd⟩

variable (order : SetOrder) (title : String → String)

/-- **Adding to a digest with images.** Resolving the new image against the one found under its digest
takes the digest from one standing to the next, unless it would need reindexing. -/
theorem resolveDuplicate_stands {s : Standing} {other : ℕ} (hpool : Pool base)
    (hc : Consistent base c) (hrefers : Refers base c) (hfinds : Finds base m c)
    (hlt : ∀ x ∈ m, x < base.size) (hi : i < base.size) (hnew : i ∉ m)
    (h : Stands base m c (base i).digest s) (hother : c.byDigest (base i).digest = some other)
    (hm : ∀ x, x ∈ m' ↔ x ∈ m ∨ x = i)
    (hreindex : s = .pending → (base i).isPossibleAlias = true) :
    ∃ c', resolveDuplicate order title i other c = .ok c' ∧ Consistent base c' ∧
      Changes base (base i).digest c c' ∧
      (∀ x ∈ m, (c'.images x).imageType = (c.images x).imageType) ∧
      (∀ x ≠ i, (c.images x).aliasTarget = none → (c'.images x).aliasTarget = none) ∧
      Stands base m' c' (base i).digest (s.join (base i).isPossibleAlias) := by
  obtain ⟨hotherMem, hotherDigest⟩ := h.byDigest_mem hother
  have hotherNe : i ≠ other := fun h ↦ hnew (h ▸ hotherMem)
  have hold : other < base.size := hlt other hotherMem
  have hmem : ∀ x ∈ m, x ∈ m' := fun x hx ↦ (hm x).2 (Or.inl hx)
  have hself : i ∈ m' := (hm i).2 (Or.inr rfl)
  have hne : ∀ x ∈ m, x ≠ i := fun x hx hxi ↦ hnew (hxi ▸ hx)
  rcases hpossible : (base i).isPossibleAlias with _ | _
  · -- A new target takes over.
    obtain ⟨c', names, hok, hc', hchanges, hby, hun, hnames, hhanded⟩ :=
      resolveDuplicate_of_target order title hpool hc hrefers hi hold hotherNe hotherDigest.symm
        hpossible
    have hby' : c'.byDigest (base i).digest = some i := by rw [hby, Function.update_self]
    have hnone : ∀ x, (c.images x).aliasTarget = none → (c'.images x).aliasTarget = none :=
      fun _ ↦ hhanded.target_eq_none
    have htype : ∀ x ∈ m, (c'.images x).imageType = (c.images x).imageType := by
      intro x _
      rcases hhanded.status x with hsame | ⟨htarget, hstatus, -⟩
      · exact congrArg Prod.fst hsame
      · rw [hc.type_eq x (by simp [htarget])]
        exact congrArg Prod.fst hstatus
    refine ⟨c', hok, hc', hchanges, htype, fun x _ ↦ hnone x, ?_⟩
    cases s with
    | absent =>
      rw [h.1] at hother
      cases hother
    | lone =>
      obtain ⟨k, hk, -, hunresolved, hkd, hkpossible, hktarget, -⟩ := h
      exact ⟨i, hself, hby', hun ▸ hunresolved, rfl, hpossible, k, hmem k hk, hkd, hkpossible,
        hnone k hktarget⟩
    | pending => simp [hpossible] at hreindex
    | resolved =>
      obtain ⟨k, hk, hkby, hunresolved, hkd, hkpossible, hall⟩ := h
      obtain rfl := Option.some.inj (hkby.symm.trans hother)
      refine ⟨i, hself, hby', hun ▸ hunresolved, rfl, hpossible, ?_⟩
      intro x hx hxd hxpossible
      have hxm : x ∈ m := by
        rcases (hm x).1 hx with hx | rfl
        · exact hx
        · simp [hpossible] at hxpossible
      obtain ⟨hstatus, hlisted⟩ := hall x hxm hxd hxpossible
      exact hhanded.handed x (hfinds x hxm) ((hnames _).2 hlisted) (congrArg Prod.snd hstatus)
    | stale =>
      obtain ⟨k, hk, -, hunresolved, -, -, x, hx, hxd, hxpossible, hxtarget⟩ := h
      exact ⟨i, hself, hby', hun ▸ hunresolved, rfl, hpossible, x, hmem x hx, hxd, hxpossible,
        hnone x hxtarget⟩
  · -- A new possible alias.
    obtain ⟨c', hok, hc', hchanges, hby, hstatus, hboth, hresolved⟩ :=
      resolveDuplicate_of_alias order title hpool hc hrefers hi hold hotherNe hotherDigest.symm
        hpossible
    have htype : ∀ x ∈ m, (c'.images x).imageType = (c.images x).imageType := fun x hx ↦
      congrArg Prod.fst (hstatus x (hne x hx))
    refine ⟨c', hok, hc', hchanges, htype,
      fun x hx hnone ↦ (congrArg Prod.snd (hstatus x hx)).trans hnone, ?_⟩
    cases s with
    | absent =>
      rw [h.1] at hother
      cases hother
    | lone =>
      obtain ⟨k, hk, hkby, -, hkd, hkpossible, -, honly⟩ := h
      obtain rfl := Option.some.inj (hkby.symm.trans hother)
      refine ⟨k, hmem k hk, hby ▸ hkby, by simp [hboth hkpossible], hkd, ?_⟩
      intro x hx hxd
      rcases (hm x).1 hx with hx | rfl
      · rw [honly x hx hxd, hkpossible]
      · exact hpossible
    | pending =>
      obtain ⟨k, hk, hkby, -, hkd, hall⟩ := h
      obtain rfl := Option.some.inj (hkby.symm.trans hother)
      refine ⟨k, hmem k hk, hby ▸ hkby, by simp [hboth (hall k hk hkd)], hkd, ?_⟩
      intro x hx hxd
      rcases (hm x).1 hx with hx | rfl
      · exact hall x hx hxd
      · exact hpossible
    | resolved =>
      obtain ⟨k, hk, hkby, hunresolved, hkd, hkpossible, hall⟩ := h
      obtain rfl := Option.some.inj (hkby.symm.trans hother)
      obtain ⟨hun, hnewStatus, hlisted⟩ := hresolved hkpossible
      refine ⟨k, hmem k hk, hby ▸ hkby, hun ▸ hunresolved, hkd, hkpossible, ?_⟩
      intro x hx hxd hxpossible
      rcases (hm x).1 hx with hx | rfl
      · obtain ⟨hxstatus, hxlisted⟩ := hall x hx hxd hxpossible
        exact ⟨(hstatus x (hne x hx)).trans hxstatus, (hchanges.evolves k).aliases hxlisted⟩
      · exact ⟨hnewStatus, hlisted⟩
    | stale =>
      obtain ⟨k, hk, hkby, hunresolved, hkd, hkpossible, x, hx, hxd, hxpossible, hxtarget⟩ := h
      obtain rfl := Option.some.inj (hkby.symm.trans hother)
      obtain ⟨hun, -, -⟩ := hresolved hkpossible
      exact ⟨k, hmem k hk, hby ▸ hkby, hun ▸ hunresolved, hkd, hkpossible, x, hmem x hx, hxd,
        hxpossible, (congrArg Prod.snd (hstatus x (hne x hx))).trans hxtarget⟩

/-! ### Indexing from scratch -/

/-- Every digest stands as indexing from scratch leaves it. -/
def Clean (base : Heap RSPImage) (m : List ℕ) (c : RSPImageCollection) : Prop :=
  ∀ d, ∃ s, s ≠ .lone ∧ s ≠ .stale ∧ Stands base m c d s

theorem setByDigest_changes (c : RSPImageCollection) (d : String) (i : ℕ) :
    Changes base d c (c.setByDigest d i) :=
  ⟨fun _ ↦ .refl _, fun _ _ ↦ rfl, fun _ he ↦ Function.update_of_ne he _ _, fun _ _ ↦ rfl, rfl⟩

theorem appendUnresolved_changes (c : RSPImageCollection) (d : String) (i : ℕ) :
    Changes base d c (c.appendUnresolved d i) :=
  ⟨fun _ ↦ .refl _, fun _ _ ↦ rfl, fun _ _ ↦ rfl, fun _ he ↦ Function.update_of_ne he _ _, rfl⟩

/-- A change that concerns the digest of an image added, with that digest seen to. -/
theorem Clean.step {s : Standing} (h : Clean base m c) (hchanges : Changes base d c c')
    (hm : ∀ x, x ∈ m' ↔ x ∈ m ∨ x = i) (hi : (base i).digest = d) (hlone : s ≠ .lone)
    (hstale : s ≠ .stale) (hs : Stands base m' c' d s) : Clean base m' c' := by
  intro e
  rcases eq_or_ne e d with rfl | hne
  · exact ⟨s, hlone, hstale, hs⟩
  · obtain ⟨s', hlone', hstale', hs'⟩ := h e
    exact ⟨s', hlone', hstale', hs'.frame hchanges hne hm hi⟩

/-- **The first pass** succeeds, returns the possible aliases in order, and indexes the targets. -/
theorem firstPass_spec (hpool : Pool base) (rest : List ℕ) : ∀ (done : List ℕ)
    (c : RSPImageCollection), Consistent base c → Refers base c →
    (∀ x ∈ done ++ rest, x < base.size) → (done ++ rest).Nodup →
    (∀ x ∈ done, (base x).isPossibleAlias = false) → Clean base done c →
    ∃ c', firstPass order title rest c =
        .ok (rest.filter fun x ↦ (base x).isPossibleAlias, c') ∧
      Consistent base c' ∧ c'.collection = c.collection ∧
      (∀ x, (c.images x).Evolves (c'.images x)) ∧
      (∀ x, (c.images x).aliasTarget = none → (c'.images x).aliasTarget = none) ∧
      Clean base (done ++ rest.filter fun x ↦ !(base x).isPossibleAlias) c' := by
  induction rest with
  | nil =>
    intro done c hc _ _ _ _ hclean
    exact ⟨c, rfl, hc, rfl, fun _ ↦ .refl _, fun _ h ↦ h, by simpa using hclean⟩
  | cons i rest ih =>
    intro done c hc hrefers hlt hnodup htargets hclean
    have hi : i < base.size := hlt i (by simp)
    rcases hpossible : (base i).isPossibleAlias with _ | _
    · -- A target: the digest is resolved afterwards, with the first target of the list.
      have hnew : i ∉ done := fun hmem ↦ (List.nodup_append.1 hnodup).2.2 i hmem i (by simp) rfl
      have htargets' : ∀ x ∈ done ++ [i], (base x).isPossibleAlias = false := by
        intro x hx
        rcases List.mem_append.1 hx with hx | hx
        · exact htargets x hx
        · rw [List.mem_singleton.1 hx, hpossible]
      have hvacuous : ∀ {P : ℕ → Prop}, ∀ x ∈ done ++ [i], (base x).digest = (base i).digest →
          (base x).isPossibleAlias = true → P x := by
        intro P x hx _ hxpossible
        simp [htargets' x hx] at hxpossible
      obtain ⟨c₁, hc₁, hchanges, hnone, hrest, hstands⟩ : ∃ c₁, Consistent base c₁ ∧
          Changes base (base i).digest c c₁ ∧
          (∀ x, (c.images x).aliasTarget = none → (c₁.images x).aliasTarget = none) ∧
          firstPass order title (i :: rest) c = firstPass order title rest c₁ ∧
          Stands base (done ++ [i]) c₁ (base i).digest .resolved := by
        obtain ⟨s, hlone, hstale, hs⟩ := hclean (base i).digest
        rcases hby : c.byDigest (base i).digest with _ | other
        · refine ⟨c.setByDigest (base i).digest i,
            ⟨hc.evolves, hc.alias_mem, hc.type_eq, hc.architecture⟩, setByDigest_changes _ _ _,
            fun _ h ↦ h, ?_, i, by simp, Function.update_self _ _ _, ?_, rfl, hpossible, hvacuous⟩
          · simp [firstPass, hc.possible, hpossible, hc.digest, hby]
          · cases s with
            | absent => exact hs.2.1
            | lone => exact absurd rfl hlone
            | stale => exact absurd rfl hstale
            | pending | resolved =>
              obtain ⟨k, -, hkby, -⟩ := hs
              rw [hby] at hkby
              cases hkby
        · obtain ⟨hother, hotherDigest⟩ := hs.byDigest_mem hby
          have hotherTarget := htargets other hother
          obtain ⟨c₁, names, hok, hc₁, hchanges, hby₁, hun₁, -, hhanded⟩ :=
            resolveDuplicate_of_target order title hpool hc hrefers (hlt other (by simp [hother])) hi
              (fun h ↦ hnew (h ▸ hother)) hotherDigest hotherTarget
          rw [hotherDigest] at hchanges hby₁
          refine ⟨c₁, hc₁, hchanges, fun x ↦ hhanded.target_eq_none, ?_, other, by simp [hother], ?_,
            ?_, hotherDigest, hotherTarget, hvacuous⟩
          · simp only [firstPass, hc.possible, hpossible, hc.digest, hby]
            rw [hok]
            rfl
          · rw [hby₁, Function.update_self]
          · rw [hun₁]
            cases s with
            | absent => exact hs.2.1
            | lone => exact absurd rfl hlone
            | stale => exact absurd rfl hstale
            | resolved => exact hs.choose_spec.2.2.1
            | pending =>
              obtain ⟨k, hk, -, -, hkd, hall⟩ := hs
              simpa [htargets k hk] using hall k hk hkd
      have hclean₁ : Clean base (done ++ [i]) c₁ :=
        hclean.step hchanges (by simp) rfl (by simp) (by simp) hstands
      obtain ⟨c', hok, hc', hcollection, hevolves, hnone', hclean'⟩ := ih (done ++ [i]) c₁ hc₁
        (fun name k hk ↦ hrefers name k (by rwa [hchanges.collection] at hk)) (by simpa using hlt)
        (by simpa using hnodup) htargets' hclean₁
      refine ⟨c', ?_, hc', hcollection.trans hchanges.collection,
        fun x ↦ (hchanges.evolves x).trans (hevolves x), fun x h ↦ hnone' x (hnone x h), ?_⟩
      · rw [hrest, hok, List.filter_cons_of_neg (by simp [hpossible])]
      · rw [List.filter_cons_of_pos (by simp [hpossible])]
        simpa using hclean'
    · -- A possible alias waits for the second pass.
      have hsub : (done ++ rest).Sublist (done ++ i :: rest) :=
        (List.sublist_cons_self i rest).append_left done
      obtain ⟨c', hok, hc', hcollection, hevolves, hnone, hclean'⟩ := ih done c hc hrefers
        (fun x hx ↦ hlt x (hsub.subset hx)) (hnodup.sublist hsub) htargets hclean
      refine ⟨c', ?_, hc', hcollection, hevolves, hnone, ?_⟩
      · rw [List.filter_cons_of_pos (p := fun x ↦ (base x).isPossibleAlias) hpossible, firstPass, if_pos ((hc.possible i).trans hpossible),
          hok]
        rfl
      · rw [List.filter_cons_of_neg (by simp [hpossible])]
        exact hclean'

/-- **The second pass** succeeds and indexes the possible aliases as well. -/
theorem secondPass_spec (hpool : Pool base) (rest : List ℕ) : ∀ (m : List ℕ)
    (c : RSPImageCollection), Consistent base c → Refers base c → Finds base (m ++ rest) c →
    (∀ x ∈ m ++ rest, x < base.size) → (m ++ rest).Nodup →
    (∀ x ∈ rest, (base x).isPossibleAlias = true) → Clean base m c →
    ∃ c', secondPass order title rest c = .ok c' ∧ Consistent base c' ∧
      c'.collection = c.collection ∧ (∀ x, (c.images x).Evolves (c'.images x)) ∧
      (∀ x ∉ rest, (c.images x).aliasTarget = none → (c'.images x).aliasTarget = none) ∧
      Clean base (m ++ rest) c' := by
  induction rest with
  | nil =>
    intro m c hc _ _ _ _ _ hclean
    exact ⟨c, rfl, hc, rfl, fun _ ↦ .refl _, fun _ _ h ↦ h, by simpa using hclean⟩
  | cons i rest ih =>
    intro m c hc hrefers hfinds hlt hnodup haliases hclean
    have hi : i < base.size := hlt i (by simp)
    have hpossible := haliases i (by simp)
    have hnew : i ∉ m := fun hmem ↦ (List.nodup_append.1 hnodup).2.2 i hmem i (by simp) rfl
    obtain ⟨s, hlone, hstale, hs⟩ := hclean (base i).digest
    obtain ⟨c₁, s', hc₁, hchanges, hnone, hrest, hlone', hstale', hs'⟩ : ∃ c₁ s',
        Consistent base c₁ ∧ Changes base (base i).digest c c₁ ∧
        (∀ x ≠ i, (c.images x).aliasTarget = none → (c₁.images x).aliasTarget = none) ∧
        secondPass order title (i :: rest) c = secondPass order title rest c₁ ∧
        s' ≠ .lone ∧ s' ≠ .stale ∧ Stands base (m ++ [i]) c₁ (base i).digest s' := by
      rcases hby : c.byDigest (base i).digest with _ | other
      · refine ⟨(c.appendUnresolved (base i).digest i).setByDigest (base i).digest i, .pending,
          ⟨hc.evolves, hc.alias_mem, hc.type_eq, hc.architecture⟩,
          (appendUnresolved_changes _ _ _).trans (setByDigest_changes _ _ _), fun _ _ h ↦ h, ?_,
          by simp, by simp, i, by simp, Function.update_self _ _ _, ?_, rfl, ?_⟩
        · simp [secondPass, hc.digest, hby]
        · simp [setByDigest, appendUnresolved]
        · intro x hx hxd
          rcases List.mem_append.1 hx with hx | hx
          · cases s with
            | absent => exact absurd hxd (hs.2.2 x hx)
            | lone => exact absurd rfl hlone
            | stale => exact absurd rfl hstale
            | pending | resolved =>
              obtain ⟨k, -, hkby, -⟩ := hs
              rw [hby] at hkby
              cases hkby
          · rw [List.mem_singleton.1 hx, hpossible]
      · have hm : ∀ x, x ∈ m ++ [i] ↔ x ∈ m ∨ x = i := by simp
        obtain ⟨c₁, hok, hc₁, hchanges, -, hnone, hs₁⟩ := resolveDuplicate_stands order title hpool hc
          hrefers (fun x hx ↦ hfinds x (by simp [hx])) (fun x hx ↦ hlt x (by simp [hx])) hi hnew hs
          hby hm fun _ ↦ hpossible
        refine ⟨c₁, _, hc₁, hchanges, hnone, ?_, ?_, ?_, hs₁⟩
        · simp only [secondPass, hc.digest, hby]
          rw [hok]
          rfl
        all_goals
          cases s with
          | absent =>
            rw [hs.1] at hby
            cases hby
          | lone => exact absurd rfl hlone
          | stale => exact absurd rfl hstale
          | pending | resolved => simp [Standing.join, hpossible]
    have hclean₁ : Clean base (m ++ [i]) c₁ :=
      hclean.step hchanges (by simp) rfl hlone' hstale' hs'
    obtain ⟨c', hok, hc', hcollection, hevolves, hnone', hclean'⟩ := ih (m ++ [i]) c₁ hc₁
      (fun name k hk ↦ hrefers name k (by rwa [hchanges.collection] at hk))
      (fun x hx ↦ by
        rw [hchanges.collection]
        exact hfinds x (by simpa using hx))
      (by simpa using hlt) (by simpa using hnodup) (fun x hx ↦ haliases x (by simp [hx])) hclean₁
    exact ⟨c', hrest.trans hok, hc', hcollection.trans hchanges.collection,
      fun x ↦ (hchanges.evolves x).trans (hevolves x), fun x hx h ↦
        hnone' x (fun hmem ↦ hx (by simp [hmem])) (hnone x (fun hxi ↦ hx (by simp [hxi])) h),
      by simpa using hclean'⟩

/-- A clean index stands as the abstract account of indexing says. -/
theorem Clean.stands (h : Clean base m c) (d : String) :
    Stands base m c d (Standings.ofImages (m.map fun i ↦ base i) d) := by
  obtain ⟨s, hlone, hstale, hs⟩ := h d
  have hindex : s = .index s.present s.target := by
    cases s with
    | lone => exact absurd rfl hlone
    | stale => exact absurd rfl hstale
    | absent | pending | resolved => rfl
  have hpresent : s.present = (m.map fun i ↦ base i).any fun image ↦ image.digest = d := by
    rw [Bool.eq_iff_iff, hs.present_iff]
    simp
  have htarget : s.target =
      (m.map fun i ↦ base i).any fun image ↦ image.digest = d ∧ image.isPossibleAlias = false := by
    rw [Bool.eq_iff_iff, hs.target_iff]
    simp
  rw [Standings.ofImages, ← hpresent, ← htarget, ← hindex]
  exact hs

theorem refers_of_indexed (htag : ∀ x, (c.images x).tag = (base x).tag)
    (hlt : ∀ x ∈ m, x < base.size)
    (h : RSPImageTagCollection.Indexed c.view c.collection m) : Refers base c := by
  intro name k hk
  rw [RSPImageTagCollection.tagForTagName, h.byTag] at hk
  have hmem : k ∈ m := List.mem_reverse.1 (List.mem_of_find?_eq_some hk)
  refine ⟨hlt k hmem, ?_⟩
  have hname : (c.view k).tag = name := by simpa using List.find?_some hk
  rw [← htag k]
  exact hname

theorem finds_of_indexed (hpool : Pool base) (htag : ∀ x, (c.images x).tag = (base x).tag)
    (hlt : ∀ x ∈ m, x < base.size) (h : RSPImageTagCollection.Indexed c.view c.collection m) :
    Finds base m c := by
  intro x hx
  rcases hk : c.collection.tagForTagName (base x).tag with _ | k
  · rw [RSPImageTagCollection.tagForTagName, h.byTag, List.find?_eq_none] at hk
    simpa [view, htag] using hk x (List.mem_reverse.2 hx)
  · obtain ⟨hklt, hktag⟩ := refers_of_indexed htag hlt h _ k hk
    rw [hpool.tag_inj k hklt x (hlt x hx) hktag]

section Contents

variable [Ord Version]

/-- The indexing of tags never raises. -/
theorem reindexTags_spec (images : List ℕ) (c : RSPImageCollection) :
    ∃ collection, reindexTags images c = .ok { c with collection } ∧
      RSPImageTagCollection.init c.view images = some collection ∧
      RSPImageTagCollection.Indexed c.view collection images := by
  obtain ⟨collection, hinit⟩ : ∃ collection, RSPImageTagCollection.init c.view images =
      some collection := ⟨_, RSPImageTagCollection.init_eq images⟩
  exact ⟨collection, by rw [reindexTags, hinit], hinit, RSPImageTagCollection.init_indexed hinit⟩

/-- **Specification of `replaceContents`.** It raises nothing, indexes the images by tag, and leaves
every digest as indexing from scratch does. -/
theorem replaceContents_spec (hpool : Pool base) (hc : Consistent base c) (images : List ℕ)
    (hlt : ∀ x ∈ images, x < base.size) (hnodup : images.Nodup) (cycle : Option ℕ) :
    ∃ c', replaceContents order title images cycle c = .ok c' ∧ Consistent base c' ∧
      (∀ x, (c.images x).Evolves (c'.images x)) ∧
      let m := images.filter fun i ↦ cycle = none ∨ (c.images i).cycle = cycle
      (∀ x ∉ m, (c.images x).aliasTarget = none → (c'.images x).aliasTarget = none) ∧
      RSPImageTagCollection.init c'.view m = some c'.collection ∧
      ∀ d, Stands base m c' d (Standings.ofImages (m.map fun i ↦ base i) d) := by
  obtain ⟨m, hm⟩ : ∃ m, m = images.filter fun i ↦ cycle = none ∨ (c.images i).cycle = cycle :=
    ⟨_, rfl⟩
  have hmlt : ∀ x ∈ m, x < base.size := fun x hx ↦ hlt x (by
    rw [hm] at hx
    exact List.mem_of_mem_filter hx)
  have hmnodup : m.Nodup := hm ▸ hnodup.filter _
  obtain ⟨c₀, hc₀eq⟩ : ∃ c₀ : RSPImageCollection, c₀ =
      { c with byDigest := fun _ ↦ none, unresolvedAliases := fun _ ↦ [] } := ⟨_, rfl⟩
  obtain ⟨collection, hreindex, -, hindexed⟩ := reindexTags_spec m c₀
  obtain ⟨c₁, hc₁eq⟩ : ∃ c₁, c₁ = { c₀ with collection } := ⟨_, rfl⟩
  have hc₁ : Consistent base c₁ := by
    rw [hc₁eq, hc₀eq]
    exact ⟨hc.evolves, hc.alias_mem, hc.type_eq, hc.architecture⟩
  have hindexed₁ : RSPImageTagCollection.Indexed c₁.view c₁.collection m := by
    rw [hc₁eq]
    exact hindexed
  have hclean₁ : Clean base [] c₁ := fun d ↦
    ⟨.absent, by simp, by simp, by simp [hc₁eq, hc₀eq], by simp [hc₁eq, hc₀eq], by simp⟩
  -- The two passes.
  have hrefers := refers_of_indexed hc₁.tag hmlt hindexed₁
  have hfinds := finds_of_indexed hpool hc₁.tag hmlt hindexed₁
  obtain ⟨c₂, hfirst, hc₂, hcollection₂, hevolves₂, hnone₂, hclean₂⟩ := firstPass_spec order title
    hpool m [] c₁ hc₁ hrefers (by simpa using hmlt) (by simpa using hmnodup) (by simp) hclean₁
  have hsplit : ∀ x, x ∈ (m.filter fun x ↦ !(base x).isPossibleAlias) ++
      m.filter (fun x ↦ (base x).isPossibleAlias) ↔ x ∈ m := by
    intro x
    rcases hpossible : (base x).isPossibleAlias with _ | _ <;> simp [hpossible]
  obtain ⟨c₃, hsecond, hc₃, hcollection₃, hevolves₃, hnone₃, hclean₃⟩ := secondPass_spec order title
    hpool (m.filter fun x ↦ (base x).isPossibleAlias) ([] ++ m.filter fun x ↦
      !(base x).isPossibleAlias) c₂ hc₂
    (fun name k hk ↦ hrefers name k (by rwa [hcollection₂] at hk))
    (fun x hx ↦ by
      rw [hcollection₂]
      exact hfinds x ((hsplit x).1 hx))
    (fun x hx ↦ hmlt x ((hsplit x).1 hx))
    (List.nodup_append.2 ⟨hmnodup.filter _, hmnodup.filter _, fun x hx y hy hxy ↦ by
      subst hxy
      simp_all⟩)
    (fun x hx ↦ by simpa using (List.mem_filter.1 hx).2) hclean₂
  obtain ⟨collection', hreindex', hinit', -⟩ := reindexTags_spec m c₃
  refine ⟨{ c₃ with collection := collection' }, ?_, ?_, ?_, ?_⟩
  · have hreindex₁ : reindexTags m c₀ = .ok c₁ := by rw [hreindex, hc₁eq]
    simp only [replaceContents, ← hm, ← hc₀eq]
    show (reindexTags m c₀ >>= _) = _
    rw [hreindex₁]
    show (firstPass order title m c₁ >>= _) = _
    rw [hfirst]
    show (secondPass order title _ c₂ >>= _) = _
    rw [hsecond]
    exact hreindex'
  · exact ⟨hc₃.evolves, hc₃.alias_mem, hc₃.type_eq, hc₃.architecture⟩
  · intro x
    have := (hevolves₂ x).trans (hevolves₃ x)
    rw [hc₁eq, hc₀eq] at this
    exact this
  · rw [← hm]
    refine ⟨fun x hx hnone ↦ hnone₃ x (fun hmem ↦ hx (List.mem_of_mem_filter hmem))
      (hnone₂ x (by rw [hc₁eq, hc₀eq]; exact hnone)), hinit', fun d ↦ ?_⟩
    have hclean : Clean base m { c₃ with collection := collection' } := by
      intro d
      obtain ⟨s, hlone, hstale, hs⟩ := hclean₃ d
      have hs' := hs.congr fun x ↦ hsplit x
      refine ⟨s, hlone, hstale, ?_⟩
      cases s <;> exact hs'
    exact hclean.stands d

/-! ### Simulation -/

/-- The collection with images `m` is in the abstract state `s`. -/
structure Tracks (base : Heap RSPImage) (m : List ℕ) (c : RSPImageCollection) (s : Standings) :
    Prop where
  consistent : Consistent base c
  indexed : RSPImageTagCollection.Indexed c.view c.collection m
  nodup : m.Nodup
  lt : ∀ x ∈ m, x < base.size
  untouched : ∀ x ∉ m, (c.images x).aliasTarget = none
  stands : ∀ d, Stands base m c d (s d)

/-- Where nothing is for a specific architecture, the images shown are all images. -/
theorem mem_allImages {s : Standings} (h : Tracks base m c s)
    (hbase : ∀ i, (base i).architecture = none) (x : ℕ) : x ∈ c.allImages ↔ x ∈ m := by
  have harchitecture := h.consistent.architecture hbase
  have hshown : ∀ x, (c.view x).isArchSpecific = false := by
    intro x
    rw [RSPImageTag.isArchSpecific, view, harchitecture]
    rfl
  rw [← h.indexed.mem_allTags]
  simp [allImages, RSPImageTagCollection.allTags, hshown]

theorem nodup_allImages {s : Standings} (h : Tracks base m c s) : c.allImages.Nodup :=
  (h.indexed.nodup_allTags h.nodup _).filter _

/-- **The constructor follows the abstract account**, and its tag collection is built from the images
as they end up. -/
theorem init_spec (hpool : Pool base) (images : List ℕ) (hlt : ∀ x ∈ images, x < base.size)
    (hnodup : images.Nodup) (cycle : Option ℕ) :
    ∃ c, init order title base images cycle = .ok c ∧
      let m := images.filter fun i ↦ cycle = none ∨ (base i).cycle = cycle
      Tracks base m c (Standings.ofImages (m.map fun i ↦ base i)) ∧
        RSPImageTagCollection.init c.view m = some c.collection := by
  have hc : Consistent base ⟨base, fun _ ↦ none, fun _ ↦ [], .empty⟩ :=
    ⟨fun _ ↦ .refl _, by simp [hpool.aliases_eq], by simp [hpool.target_eq], fun h ↦ h⟩
  obtain ⟨c, hok, hc', -, hnone, hinit, hstands⟩ :=
    replaceContents_spec order title hpool hc images hlt hnodup cycle
  have htracks := Tracks.mk hc' (RSPImageTagCollection.init_indexed hinit) (hnodup.filter _)
    (fun x hx ↦ hlt x (List.mem_of_mem_filter hx)) (fun x hx ↦ hnone x hx (hpool.target_eq x))
    hstands
  exact ⟨c, hok, htracks, hinit⟩

/-- Unresolved aliases are on record exactly where a digest is pending. -/
theorem Stands.unresolved_iff {s : Standing} (h : Stands base m c d s) :
    c.unresolvedAliases d ≠ [] ↔ s = .pending := by
  cases s with
  | absent => simp [h.2.1]
  | lone | resolved | stale =>
    obtain ⟨i, -, -, hunresolved, -⟩ := h
    simp [hunresolved]
  | pending =>
    obtain ⟨i, -, -, hunresolved, -⟩ := h
    simp [hunresolved]

/-- Reindexing leaves a digest as the abstract account says. -/
theorem Tracks.index_eq {s : Standings} (h : Tracks base m c s) (hm : ∀ x, x ∈ m' ↔ x ∈ m ∨ x = i)
    (hpending : s (base i).digest = .pending) (hpossible : (base i).isPossibleAlias = false)
    (d : String) :
    Standings.ofImages (m'.map fun i ↦ base i) d = s.add (base i) d := by
  obtain ⟨s', hs'⟩ : ∃ s', s' = if d = (base i).digest then
    (s d).join (base i).isPossibleAlias else s d := ⟨_, rfl⟩
  have hiff : (s'.present = true ↔ ∃ x ∈ m', (base x).digest = d) ∧
      (s'.target = true ↔ ∃ x ∈ m', (base x).digest = d ∧ (base x).isPossibleAlias = false) := by
    rcases eq_or_ne d (base i).digest with rfl | hne
    · rw [if_pos rfl, hpending, hpossible] at hs'
      subst hs'
      have hi : i ∈ m' := (hm i).2 (Or.inr rfl)
      exact ⟨iff_of_true rfl ⟨i, hi, rfl⟩, iff_of_true rfl ⟨i, hi, rfl, hpossible⟩⟩
    · rw [if_neg hne] at hs'
      subst hs'
      have hother : ∀ x, (base x).digest = d → (x ∈ m' ↔ x ∈ m) := by
        intro x hx
        rw [hm]
        exact or_iff_left fun hxi ↦ hne (hx.symm.trans (by rw [hxi]))
      rw [(h.stands d).present_iff, (h.stands d).target_iff]
      constructor
      · exact exists_congr fun x ↦ and_congr_left fun hx ↦ (hother x hx).symm
      · exact exists_congr fun x ↦ and_congr_left fun hx ↦ (hother x hx.1).symm
  rw [Standings.add, if_pos ⟨hpending, hpossible⟩, ← hs', Standings.ofImages]
  congr 1
  · rw [Bool.eq_iff_iff, hiff.1]
    simp
  · rw [Bool.eq_iff_iff, hiff.2]
    simp

/-- Indexing one image by its digest, without indexing its tag. -/
theorem addByDigest_spec {s : Standings} (hpool : Pool base) (h : Tracks base m c s)
    (hi : i < base.size) (hnew : i ∉ m) (hm : ∀ x, x ∈ m' ↔ x ∈ m ∨ x = i)
    (hreindex : s (base i).digest = .pending → (base i).isPossibleAlias = true) :
    ∃ c', addByDigest order title i c = .ok c' ∧ Consistent base c' ∧ Changes base (base i).digest c c' ∧
      (∀ x ∈ m, (c'.images x).imageType = (c.images x).imageType) ∧
      (∀ x ≠ i, (c.images x).aliasTarget = none → (c'.images x).aliasTarget = none) ∧
      Stands base m' c' (base i).digest
        ((s (base i).digest).join (base i).isPossibleAlias) := by
  have hc := h.consistent
  have hs := h.stands (base i).digest
  rcases hby : c.byDigest (base i).digest with _ | other
  · -- The first image of its digest.
    have hfirst : s (base i).digest = .absent := by
      cases hstanding : s (base i).digest with
      | absent => rfl
      | lone | pending | resolved | stale =>
        rw [hstanding] at hs
        obtain ⟨k, -, hkby, -⟩ := hs
        rw [hby] at hkby
        cases hkby
    rw [hfirst] at hs ⊢
    have hself : i ∈ m' := (hm i).2 (Or.inr rfl)
    have honly : ∀ x ∈ m', (base x).digest = (base i).digest → x = i := by
      intro x hx hxd
      rcases (hm x).1 hx with hx | hx
      · exact absurd hxd (hs.2.2 x hx)
      · exact hx
    refine ⟨c.setByDigest (base i).digest i, by rw [addByDigest, hc.digest, hby],
      ⟨hc.evolves, hc.alias_mem, hc.type_eq, hc.architecture⟩, setByDigest_changes _ _ _,
      fun _ _ ↦ rfl, fun _ _ h ↦ h, ?_⟩
    rcases hpossible : (base i).isPossibleAlias with _ | _
    · refine ⟨i, hself, Function.update_self _ _ _, hs.2.1, rfl, hpossible, ?_⟩
      intro x hx hxd hxpossible
      rw [honly x hx hxd, hpossible] at hxpossible
      cases hxpossible
    · exact ⟨i, hself, Function.update_self _ _ _, hs.2.1, rfl, hpossible, h.untouched i hnew, honly⟩
  · rw [addByDigest, hc.digest, hby]
    exact resolveDuplicate_stands order title hpool hc
      (refers_of_indexed hc.tag h.lt h.indexed) (finds_of_indexed hpool hc.tag h.lt h.indexed) h.lt hi hnew hs
      hby hm hreindex

/-- **Adding follows the abstract account.** -/
theorem add_tracks {s : Standings} (hpool : Pool base) (hbase : ∀ i, (base i).architecture = none)
    (h : Tracks base m c s) (hi : i < base.size) (hnew : i ∉ m) :
    ∃ c' m', add order title i c = .ok c' ∧ (∀ x, x ∈ m' ↔ x ∈ m ∨ x = i) ∧
      Tracks base m' c' (s.add (base i)) := by
  have hc := h.consistent
  have hpossible := hc.possible i
  have hunresolved := (h.stands (base i).digest).unresolved_iff
  by_cases hreindex : s (base i).digest = .pending ∧ (base i).isPossibleAlias = false
  · -- Everything is indexed again.
    have hmem : ∀ x, x ∈ c.allImages ++ [i] ↔ x ∈ m ∨ x = i := by
      intro x
      simp [mem_allImages h hbase]
    have hlt : ∀ x ∈ c.allImages ++ [i], x < base.size := fun x hx ↦
      ((hmem x).1 hx).elim (h.lt x) fun hxi ↦ hxi ▸ hi
    have hnodup : (c.allImages ++ [i]).Nodup := by
      refine List.nodup_append.2 ⟨nodup_allImages h, by simp, fun x hx y hy hxy ↦ hnew ?_⟩
      rw [← mem_allImages h hbase, ← List.mem_singleton.1 hy, ← hxy]
      exact hx
    obtain ⟨c', hok, hc', -, hnone, hinit, hstands⟩ := replaceContents_spec order title hpool hc
      (c.allImages ++ [i]) hlt hnodup none
    simp only [true_or, decide_true, List.filter_true] at hnone hinit hstands
    refine ⟨c', c.allImages ++ [i], ?_, hmem, hc', RSPImageTagCollection.init_indexed hinit, hnodup,
      hlt, fun x hx ↦ hnone x hx (h.untouched x fun hxm ↦ hx ((hmem x).2 (Or.inl hxm))),
      fun d ↦ ?_⟩
    · rw [add, if_pos (by simp [hpossible, hreindex.2, hc.digest, hunresolved.2 hreindex.1])]
      exact hok
    · rw [← h.index_eq hmem hreindex.1 hreindex.2 d]
      exact hstands d
  · have hm : ∀ x, x ∈ m ++ [i] ↔ x ∈ m ∨ x = i := by simp
    have hpending : s (base i).digest = .pending → (base i).isPossibleAlias = true := by
      intro hs
      simpa [hs] using hreindex
    obtain ⟨c₁, hok, hc₁, hchanges, htype, hnone, hstands⟩ :=
      addByDigest_spec order title hpool h hi hnew hm hpending
    have hindexed₁ : RSPImageTagCollection.Indexed c₁.view c₁.collection m := by
      rw [hchanges.collection]
      exact h.indexed.congr htype fun x _ ↦ (hc₁.tag x).trans (hc.tag x).symm
    obtain ⟨collection, hadd⟩ : ∃ collection, c₁.collection.add c₁.view i = some collection :=
      ⟨_, RSPImageTagCollection.add_eq hindexed₁ i⟩
    refine ⟨{ c₁ with collection }, m ++ [i], ?_, hm,
      ⟨hc₁.evolves, hc₁.alias_mem, hc₁.type_eq, hc₁.architecture⟩,
      RSPImageTagCollection.add_indexed hindexed₁ hadd, ?_, ?_, ?_, fun d ↦ ?_⟩
    · have hcond : (!(c.images i).isPossibleAlias &&
          !(c.unresolvedAliases (c.images i).digest).isEmpty) = false := by
        rw [hpossible, hc.digest]
        rcases hp : (base i).isPossibleAlias with _ | _
        · have : ¬ s (base i).digest = .pending := fun hs ↦ by simp [hpending hs] at hp
          simpa using (not_congr hunresolved).2 this
        · rfl
      rw [add, hcond]
      simp only [Bool.false_eq_true, if_false, hok, bind, Except.bind, hadd]
    · refine List.nodup_append.2 ⟨h.nodup, by simp, fun x hx y hy hxy ↦ hnew ?_⟩
      rw [← List.mem_singleton.1 hy, ← hxy]
      exact hx
    · exact fun x hx ↦ ((hm x).1 hx).elim (h.lt x) fun hxi ↦ hxi ▸ hi
    · intro x hx
      have hx' : x ∉ m ∧ x ≠ i := by simpa using hx
      exact hnone x hx'.2 (h.untouched x hx'.1)
    · have hs : Stands base (m ++ [i]) c₁ d (s.add (base i) d) := by
        rw [Standings.add_of_ne hpending]
        rcases eq_or_ne d (base i).digest with rfl | hne
        · rw [if_pos rfl]
          exact hstands
        · rw [if_neg hne]
          exact (h.stands d).frame hchanges hne hm rfl
      cases hstanding : s.add (base i) d <;> rw [hstanding] at hs <;> exact hs

end Contents

end RSPImageCollection

end Nublado.Images
