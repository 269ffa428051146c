import Mathlib.Data.List.Perm.Basic
import Nublado.Images.TagOrder

/-!
# Collections of tags

`RSPImageTagCollection` indexes tags by name and by type and keeps the list of each type sorted from
greatest to least. The class is generic in the tags it holds: the members are of a type `T`, and
`view` gives the tag fields of a member. For plain tags `view` is the identity; image collections
hold references to images, and `view` reads the image.

* Sorting a list raises a type error when two of its members cannot be compared; `sortReverse` is
  `none` there. `sortReverse_eq_some` says that it never is for members of one type.
* `Indexed` says what a collection holds, and `init_indexed` and `add_indexed` that both ways of
  filling one keep to it.
* Filtering is a generator that raises where a date is out of range, before its caller acts on any
  of its results; `filter` is `none` there.
-/

namespace Nublado.Images

/-- Hold and perform operations on a set of tags. -/
structure RSPImageTagCollection (T : Type) where
  /-- The last tag added under each name. -/
  byTag : String → Option T
  /-- The tags of each type, from greatest to least. -/
  byType : RSPImageType → List T

namespace RSPImageTagCollection

variable {T : Type}

/-- A collection without tags. -/
def empty : RSPImageTagCollection T := ⟨fun _ ↦ none, fun _ ↦ []⟩

variable (view : T → RSPImageTag)

/-- Index a tag without sorting. -/
@[grind =] def insert (c : RSPImageTagCollection T) (tag : T) : RSPImageTagCollection T where
  byTag := Function.update c.byTag (view tag).tag (some tag)
  byType := Function.update c.byType (view tag).imageType (c.byType (view tag).imageType ++ [tag])

/-- Iterate over all tags. -/
@[grind =] def allTags (c : RSPImageTagCollection T) (hideArchSpecific : Bool := true) : List T :=
  RSPImageType.all.flatMap fun t ↦
    (c.byType t).filter fun tag ↦ !(hideArchSpecific && (view tag).isArchSpecific)

/-- Get the latest tag of a given type. -/
def latest (c : RSPImageTagCollection T) (t : RSPImageType) : Option T := (c.byType t).head?

/-- Look up a tag by tag name. -/
def tagForTagName (c : RSPImageTagCollection T) (tagName : String) : Option T := c.byTag tagName

section Sorting

variable [Ord Version]

/-- `tags.sort(reverse=True)` -/
@[grind =] def sortReverse (tags : List T) : Option (List T) :=
  if ∀ a ∈ tags, ∀ b ∈ tags, ((view a).lt (view b)).isSome then
    some (sortDescending (fun a b ↦ (view a).lt (view b) == some true) tags)
  else none

/-- Sort the list of one type. -/
def sortType (c : RSPImageTagCollection T) (t : RSPImageType) : Option (RSPImageTagCollection T) :=
  (sortReverse view (c.byType t)).map fun tags ↦ { c with byType := Function.update c.byType t tags }

/-- The constructor. -/
def init (tags : List T) : Option (RSPImageTagCollection T) :=
  RSPImageType.all.foldlM (sortType view) (tags.foldl (insert view) empty)

/-- Add a tag to the collection. -/
@[grind =] def add (c : RSPImageTagCollection T) (tag : T) : Option (RSPImageTagCollection T) :=
  (c.insert view tag).sortType view (view tag).imageType

end Sorting

/-- Create a collection from tag strings; tags named in `aliases` are treated as aliases, and with a
cycle only tags of that cycle are added. `title` is `str.title`. -/
@[grind =] def fromTagNames [Ord Version] (title : String → String) (tagNames : List String)
    (aliases : List String := []) (cycle : Option ℕ := none) :
    Option (RSPImageTagCollection RSPImageTag) := do
  let tags ← tagNames.mapM fun name ↦
    if name ∈ aliases then RSPImageTag.alias title name else some (RSPImageTag.fromStr name)
  init id (tags.filter fun tag ↦ cycle = none ∨ tag.cycle = cycle)

/-! ### Filtering -/

section Filtering

/-- The oldest date that a filter accepts, if it looks at dates. -/
@[grind =] def filterDate (policy : ImageFilter) (ageBasis : Datetime) : Option (Option Datetime) := do
  let date ← match policy.age with
    | none | some 0 => some none
    | some age => (ageBasis.minus age).map some
  match policy.cutoffDate, date with
  | none, date => some date
  | some cutoff, none => some (some cutoff)
  | some cutoff, some date => some (some (if date < cutoff then cutoff else date))

/-- Take the tags that are not rejected until `number` of them are taken; zero is no limit. `count`
is how many have been taken. -/
@[grind =] def takeAccepted (reject : T → Bool) (number : Option ℕ) : ℕ → List T → List T
  | _, [] => []
  | count, tag :: tags =>
    if reject tag then takeAccepted reject number count tags
    else
      tag :: match number with
        | none | some 0 => takeAccepted reject number (count + 1) tags
        | some (n + 1) =>
          if count + 1 ≥ n + 1 then [] else takeAccepted reject number (count + 1) tags

variable [Ord Version]

/-- Whether the filtering rules pass over a tag. -/
def rejects (policy : ImageFilter) (date : Option Datetime) (tag : RSPImageTag) : Bool :=
  (match tag.build, policy.cutoffBuild with
    | some build, some cutoff => build != 0 && cutoff != 0 && build < cutoff
    | _, _ => false) ||
  (match tag.date, date with
    | some tagDate, some date => tagDate < date
    | _, _ => false) ||
  (tag.semantic &&
    match tag.version, policy.cutoffVersion with
    | some version, some cutoff => Ord.compare version cutoff == .lt
    | _, _ => false)

/-- Filter a list of tags against a filter policy. -/
@[grind =] def filterImageList (tags : List T) (policy : Option ImageFilter) (ageBasis : Datetime)
    (invert removeArchSpecific : Bool) : Option (List T) :=
  let candidates := tags.filter fun tag ↦ !(removeArchSpecific && (view tag).isArchSpecific)
  match policy with
  | none => some (if invert then [] else candidates)
  | some policy => do
    let date ← filterDate policy ageBasis
    let accepted := takeAccepted (fun tag ↦ rejects policy date (view tag)) policy.number 0 candidates
    if invert then
      let removeTags := accepted.map fun tag ↦ (view tag).tag
      some (candidates.filter fun tag ↦ (view tag).tag ∉ removeTags)
    else some accepted

/-- Apply a filter policy and return the remaining tags. -/
@[grind =] def filter (c : RSPImageTagCollection T) (policy : ImageFilterPolicy) (ageBasis : Datetime)
    (invert : Bool := false) (removeArchSpecific : Bool := true) : Option (List T) :=
  (RSPImageType.all.mapM fun t ↦ filterImageList view (c.byType t) (policy.forImageType t) ageBasis
    invert removeArchSpecific).map List.flatten

end Filtering

/-! ### Subsets -/

section Subsets

/-- The first tags of a type, up to a total. -/
@[grind =] def firstTags (c : RSPImageTagCollection T) (t : RSPImageType) (total : ℕ)
    (removeArchSpecific : Bool := true) : List T :=
  if total = 0 then []
  else takeAccepted (fun tag ↦ removeArchSpecific && (view tag).isArchSpecific) (some total) 0
    (c.byType t)

/-- Return a subset of the tag collection; the names in `included` are included if they are present. -/
@[grind =] def subset [Ord Version] (order : SetOrder) (releases weeklies dailies : ℕ)
    (included : Finset String) (removeArchSpecific : Bool := true) (c : RSPImageTagCollection T) :
    Option (RSPImageTagCollection T) :=
  init view (c.firstTags view .release releases removeArchSpecific ++
    c.firstTags view .weekly weeklies removeArchSpecific ++
    c.firstTags view .daily dailies removeArchSpecific ++
    (order.toList included).filterMap c.byTag)

end Subsets

/-! ### What a collection holds -/

section Contents

variable (view : T → RSPImageTag)

/-- `c` holds the members `tags`, added in this order. -/
structure Indexed (c : RSPImageTagCollection T) (tags : List T) : Prop where
  byType : ∀ t, (c.byType t).Perm (tags.filter fun tag ↦ (view tag).imageType = t)
  byTag : ∀ name, c.byTag name = tags.reverse.find? fun tag ↦ (view tag).tag = name

variable {view} {c : RSPImageTagCollection T} {tags : List T}

/-- The members listed under a type are the members of that type. -/
theorem Indexed.mem_byType (h : Indexed view c tags) {t : RSPImageType} {tag : T} :
    tag ∈ c.byType t ↔ tag ∈ tags ∧ (view tag).imageType = t := by
  rw [(h.byType t).mem_iff]
  simp

/-- All members are listed when architecture-specific ones are not hidden. -/
theorem Indexed.mem_allTags (h : Indexed view c tags) {tag : T} :
    tag ∈ c.allTags view false ↔ tag ∈ tags := by
  simp [allTags, h.mem_byType, RSPImageType.mem_all]

/-- What a collection holds depends on the names and types of its members only. -/
theorem Indexed.congr {view' : T → RSPImageTag} (h : Indexed view c tags)
    (htype : ∀ tag ∈ tags, (view' tag).imageType = (view tag).imageType)
    (htag : ∀ tag ∈ tags, (view' tag).tag = (view tag).tag) : Indexed view' c tags := by
  constructor
  · intro t
    rw [List.filter_congr (q := fun tag ↦ decide ((view tag).imageType = t))
      fun tag hmem ↦ by rw [htype tag hmem]]
    exact h.byType t
  · intro name
    rw [h.byTag]
    have hcongr : ∀ l : List T, (∀ tag ∈ l, tag ∈ tags) →
        l.find? (fun tag ↦ (view tag).tag = name) = l.find? fun tag ↦ (view' tag).tag = name := by
      intro l hl
      induction l with
      | nil => rfl
      | cons a l ih =>
        rw [List.find?_cons, List.find?_cons, htag a (hl a List.mem_cons_self),
          ih fun b hb ↦ hl b (List.mem_cons_of_mem _ hb)]
    exact hcongr _ fun tag hmem ↦ List.mem_reverse.1 hmem

/-- Adding an element to one of the lists that are joined. -/
theorem flatMap_cons_perm {ι α : Type} {l : List ι} {i : ι} {a : α} {f g : ι → List α}
    (hnodup : l.Nodup) (hi : i ∈ l) (hsame : ∀ j ≠ i, g j = f j) (hmore : (g i).Perm (a :: f i)) :
    (l.flatMap g).Perm (a :: l.flatMap f) := by
  induction l with
  | nil => cases hi
  | cons j l ih =>
    obtain ⟨hj, hnodup⟩ := List.nodup_cons.1 hnodup
    rw [List.flatMap_cons, List.flatMap_cons]
    rcases List.mem_cons.1 hi with rfl | hi
    · have hrest : l.flatMap g = l.flatMap f :=
        List.flatMap_congr fun k hk ↦ hsame k fun hki ↦ hj (hki ▸ hk)
      rw [hrest]
      exact hmore.append_right _
    · rw [hsame j fun hji ↦ hj (hji ▸ hi)]
      exact ((ih hnodup hi).append_left _).trans List.perm_middle

/-- **Everything is listed once** when architecture-specific members are not hidden. -/
theorem Indexed.perm_allTags (h : Indexed view c tags) : (c.allTags view false).Perm tags := by
  have hall : c.allTags view false = RSPImageType.all.flatMap c.byType := by simp [allTags]
  rw [hall]
  refine (List.Perm.flatMap_left _ fun t _ ↦ h.byType t).trans ?_
  clear h hall
  induction tags with
  | nil => simp
  | cons tag tags ih =>
    refine (flatMap_cons_perm (i := (view tag).imageType) RSPImageType.nodup_all
      (RSPImageType.mem_all _) ?_ ?_).trans (ih.cons tag)
    · exact fun t ht ↦ List.filter_cons_of_neg (by simpa using ht.symm)
    · rw [List.filter_cons_of_pos (by simp)]

/-- No member is listed twice. -/
theorem Indexed.nodup_allTags (h : Indexed view c tags) (hnodup : tags.Nodup) (hide : Bool) :
    (c.allTags view hide).Nodup := by
  rw [allTags, List.nodup_flatMap]
  constructor
  · intro t _
    exact ((h.byType t).nodup_iff.2 (hnodup.filter _)).filter _
  · refine RSPImageType.nodup_all.imp fun {t t'} hne ↦ ?_
    intro tag htag htag'
    have ht := (h.mem_byType.1 (List.mem_of_mem_filter htag)).2
    have ht' := (h.mem_byType.1 (List.mem_of_mem_filter htag')).2
    exact hne (ht.symm.trans ht')

theorem insert_foldl_byType (c : RSPImageTagCollection T) (tags : List T) (t : RSPImageType) :
    (tags.foldl (insert view) c).byType t =
      c.byType t ++ tags.filter fun tag ↦ (view tag).imageType = t := by
  induction tags generalizing c with
  | nil => simp
  | cons tag tags ih =>
    rw [List.foldl_cons, ih]
    rcases eq_or_ne t (view tag).imageType with rfl | hne
    · simp [insert]
    · rw [List.filter_cons_of_neg (by simpa using hne.symm)]
      simp [insert, hne]

theorem insert_foldl_byTag (c : RSPImageTagCollection T) (tags : List T) (name : String) :
    (tags.foldl (insert view) c).byTag name =
      (tags.reverse.find? fun tag ↦ (view tag).tag = name).or (c.byTag name) := by
  induction tags generalizing c with
  | nil => rfl
  | cons tag tags ih =>
    rw [List.foldl_cons, ih, List.reverse_cons, List.find?_append, Option.or_assoc]
    rcases eq_or_ne name (view tag).tag with rfl | hne
    · simp [insert]
    · simp [insert, hne, hne.symm]

variable [Ord Version]

/-- The order in which a list of members is kept. -/
def sorted (view : T → RSPImageTag) (tags : List T) : List T :=
  sortDescending (fun a b ↦ (view a).lt (view b) == some true) tags

/-- Members of one type can be sorted. -/
theorem sortReverse_eq_some {t : RSPImageType} (h : ∀ tag ∈ tags, (view tag).imageType = t) :
    sortReverse view tags = some (sorted view tags) := by
  rw [sortReverse, if_pos]
  · rfl
  · intro a ha b hb
    simp [RSPImageTag.lt, RSPImageTag.compare, RSPImageTag.isComparableType, h a ha, h b hb]

/-- Sorting members sorts their tags. -/
theorem map_sorted (tags : List T) : (sorted view tags).map view = sorted id (tags.map view) :=
  List.map_insertionSort _ _ view tags fun _ _ _ _ ↦ Iff.rfl

/-- Sorting some of the types. -/
theorem sortType_foldlM {types : List RSPImageType} (hnodup : types.Nodup)
    (h : ∀ t, ∀ tag ∈ c.byType t, (view tag).imageType = t) :
    types.foldlM (sortType view) c =
      some { c with byType := fun t ↦ if t ∈ types then sorted view (c.byType t) else c.byType t } := by
  induction types generalizing c with
  | nil => simp
  | cons t types ih =>
    obtain ⟨hnew, hnodup⟩ := List.nodup_cons.1 hnodup
    rw [List.foldlM_cons, sortType, sortReverse_eq_some (h t)]
    simp only [Option.map_some, Option.bind_eq_bind, Option.bind_some]
    rw [ih hnodup]
    · congr 2
      funext t'
      rcases eq_or_ne t' t with rfl | hne
      · simp [hnew]
      · simp [hne]
    · intro t' tag htag
      rcases eq_or_ne t' t with rfl | hne
      · exact h t' tag (by simpa [sorted] using htag)
      · exact h t' tag (by simpa [hne] using htag)

/-- **The constructor never raises**, and this is what it builds. -/
theorem init_eq (tags : List T) : init view tags = some
    { byTag := fun name ↦ tags.reverse.find? fun tag ↦ (view tag).tag = name
      byType := fun t ↦ sorted view (tags.filter fun tag ↦ (view tag).imageType = t) } := by
  rw [init, sortType_foldlM RSPImageType.nodup_all]
  · congr 2
    · funext name
      simp [insert_foldl_byTag, empty]
    · funext t
      simp [insert_foldl_byType, empty, RSPImageType.mem_all]
  · intro t tag htag
    have htag : tag ∈ tags ∧ (view tag).imageType = t := by
      simpa [insert_foldl_byType, empty] using htag
    exact htag.2

theorem init_indexed (h : init view tags = some c) : Indexed view c tags := by
  rw [init_eq] at h
  obtain rfl := Option.some.inj h
  exact ⟨fun t ↦ sortDescending_perm _ _, fun name ↦ rfl⟩

/-- **Adding never raises** on a collection whose members are listed under their types. -/
theorem add_eq (h : Indexed view c tags) (tag : T) : add view c tag = some
    { byTag := Function.update c.byTag (view tag).tag (some tag)
      byType := Function.update c.byType (view tag).imageType
        (sorted view (c.byType (view tag).imageType ++ [tag])) } := by
  have hsame : ∀ a ∈ (c.insert view tag).byType (view tag).imageType,
      (view a).imageType = (view tag).imageType := by
    intro a ha
    have ha : a ∈ c.byType (view tag).imageType ∨ a = tag := by simpa [insert] using ha
    rcases ha with ha | rfl
    · exact (h.mem_byType.1 ha).2
    · rfl
  rw [add, sortType, sortReverse_eq_some hsame]
  simp [insert]

/-- Adding a member lists it once more, whatever its type was before. -/
theorem add_perm {c' : RSPImageTagCollection T} {tag : T} (hadd : add view c tag = some c')
    (view' : T → RSPImageTag) :
    (c'.allTags view' false).Perm (tag :: c.allTags view' false) := by
  rw [add, sortType, Option.map_eq_some_iff] at hadd
  obtain ⟨tags, hsort, rfl⟩ := hadd
  rw [sortReverse, Option.ite_none_right_eq_some] at hsort
  obtain ⟨-, hsort⟩ := hsort
  simp only [allTags, Bool.false_and, Bool.not_false, List.filter_true]
  refine flatMap_cons_perm (i := (view tag).imageType) RSPImageType.nodup_all
    (RSPImageType.mem_all _) ?_ ?_
  · intro t ht
    simp [insert, ht]
  · rw [Function.update_self, ← Option.some.inj hsort]
    refine (sortDescending_perm _ _).trans ?_
    simp [insert]

theorem add_indexed {c' : RSPImageTagCollection T} {tag : T} (h : Indexed view c tags)
    (hadd : add view c tag = some c') : Indexed view c' (tags ++ [tag]) := by
  rw [add_eq h] at hadd
  obtain rfl := Option.some.inj hadd
  constructor
  · intro t
    rw [List.filter_append]
    rcases eq_or_ne t (view tag).imageType with rfl | hne
    · simp only [Function.update_self, List.filter_cons, List.filter_nil, decide_true, if_true]
      exact (sortDescending_perm _ _).trans ((h.byType _).append_right _)
    · simpa [hne, hne.symm] using h.byType t
  · intro name
    rcases eq_or_ne name (view tag).tag with rfl | hne
    · simp
    · simpa [hne, hne.symm] using h.byTag name

end Contents

/-! ### What filtering accepts -/

section Accepting

/-- The first elements of a list, up to a limit; zero is no limit. -/
def newest (number : Option ℕ) (tags : List T) : List T :=
  match number with
  | none | some 0 => tags
  | some (n + 1) => tags.take (n + 1)

/-- Taking the accepted tags is taking the newest of those that are not rejected. -/
theorem takeAccepted_eq (reject : T → Bool) (number : Option ℕ) (tags : List T) :
    takeAccepted reject number 0 tags = newest number (tags.filter fun tag ↦ !reject tag) := by
  have hnolimit : ∀ (number : Option ℕ), (∀ n, number ≠ some (n + 1)) → ∀ (tags : List T) count,
      takeAccepted reject number count tags = tags.filter fun tag ↦ !reject tag := by
    intro number hnumber tags
    induction tags with
    | nil =>
      intro count
      rfl
    | cons tag tags ih =>
      intro count
      rcases number with _ | _ | n
      · rcases h : reject tag with _ | _ <;> simp [takeAccepted, h, ih]
      · rcases h : reject tag with _ | _ <;> simp [takeAccepted, h, ih]
      · exact absurd rfl (hnumber n)
  have hlimit : ∀ n (tags : List T) count, count < n + 1 →
      takeAccepted reject (some (n + 1)) count tags =
        (tags.filter fun tag ↦ !reject tag).take (n + 1 - count) := by
    intro n tags
    induction tags with
    | nil =>
      intro count _
      simp [takeAccepted]
    | cons tag tags ih =>
      intro count hcount
      rcases h : reject tag with _ | _
      · obtain ⟨k, hk⟩ : ∃ k, n + 1 - count = k + 1 := ⟨n - count, by omega⟩
        rcases Nat.lt_or_ge (count + 1) (n + 1) with hmore | hfull
        · have hk' : n + 1 - (count + 1) = k := by omega
          simp [takeAccepted, h, ih _ hmore, hk, hk', Nat.not_le.2 hmore]
        · obtain rfl : k = 0 := by omega
          simp [takeAccepted, h, hk, hfull]
      · simp [takeAccepted, h, ih _ hcount]
  rcases number with _ | _ | n
  · exact hnolimit _ (by simp) _ _
  · exact hnolimit _ (by simp) _ _
  · simpa [newest] using hlimit n tags 0 (Nat.succ_pos n)

theorem newest_sublist (number : Option ℕ) (tags : List T) : (newest number tags).Sublist tags := by
  rcases number with _ | _ | n
  · exact List.Sublist.refl _
  · exact List.Sublist.refl _
  · exact List.take_sublist _ _

theorem newest_subset {number : Option ℕ} {tags : List T} : newest number tags ⊆ tags :=
  (newest_sublist number tags).subset

/-- Among the newest are all that an order of the list puts strictly before one of them. -/
theorem mem_newest_of_pairwise {r : T → T → Prop} {number : Option ℕ} {tags : List T}
    (h : tags.Pairwise r) {a b : T} (ha : a ∈ newest number tags) (hb : b ∈ tags) (hab : ¬ r a b) :
    b ∈ newest number tags := by
  rcases number with _ | _ | n
  · exact hb
  · exact hb
  · show b ∈ tags.take (n + 1)
    have ha : a ∈ tags.take (n + 1) := ha
    rw [← List.take_append_drop (n + 1) tags] at h hb
    rcases List.mem_append.1 hb with hb | hb
    · exact hb
    · exact absurd ((List.pairwise_append.1 h).2.2 a ha b hb) hab

/-- A computation on every element of a list succeeds where it does for all of them. -/
theorem mapM_eq_ite {α β : Type} {f : α → Option β} {P : α → Prop} [DecidablePred P] {g : α → β}
    (h : ∀ a, f a = if P a then some (g a) else none) (l : List α) :
    l.mapM f = if ∀ a ∈ l, P a then some (l.map g) else none := by
  induction l with
  | nil => simp
  | cons a l ih =>
    have hcons : (∀ a' ∈ a :: l, P a') ↔ P a ∧ ∀ a' ∈ l, P a' := List.forall_mem_cons
    rw [List.mapM_cons, ih, h a]
    by_cases ha : P a
    · by_cases hl : ∀ a' ∈ l, P a'
      · rw [if_pos ha, if_pos hl, if_pos (hcons.2 ⟨ha, hl⟩)]
        rfl
      · rw [if_pos ha, if_neg hl, if_neg fun h ↦ hl (hcons.1 h).2]
        rfl
    · rw [if_neg ha, if_neg fun h ↦ ha (hcons.1 h).1]
      rfl

variable {view : T → RSPImageTag}

theorem map_takeAccepted (reject : RSPImageTag → Bool) (number : Option ℕ) (count : ℕ)
    (tags : List T) : (takeAccepted (fun tag ↦ reject (view tag)) number count tags).map view =
      takeAccepted reject number count (tags.map view) := by
  induction tags generalizing count with
  | nil => rfl
  | cons tag tags ih =>
    rcases h : reject (view tag) with _ | _
    · rcases number with _ | _ | n
      · simp [takeAccepted, h, ih]
      · simp [takeAccepted, h, ih]
      · rcases Nat.lt_or_ge (count + 1) (n + 1) with hmore | hfull
        · simp [takeAccepted, h, ih, Nat.not_le.2 hmore]
        · simp [takeAccepted, h, hfull]
    · simp [takeAccepted, h, ih]

variable [Ord Version]

/-- Whether the date that a filter computes exists. -/
def InRange (policy : Option ImageFilter) (ageBasis : Datetime) : Prop :=
  ∀ f ∈ policy, (filterDate f ageBasis).isSome

instance (policy : Option ImageFilter) (ageBasis : Datetime) : Decidable (InRange policy ageBasis) :=
  inferInstanceAs (Decidable (∀ f ∈ policy, _))

/-- Whether a filter accepts the tag of this name among the tags of its type, newest first. -/
def Accepts (policy : Option ImageFilter) (ageBasis : Datetime) (tags : List RSPImageTag)
    (name : String) : Prop :=
  ∀ f ∈ policy, name ∈ (newest f.number (tags.filter fun tag ↦
    !rejects f ((filterDate f ageBasis).getD none) tag)).map RSPImageTag.tag

instance (policy : Option ImageFilter) (ageBasis : Datetime) (tags : List RSPImageTag)
    (name : String) : Decidable (Accepts policy ageBasis tags name) :=
  inferInstanceAs (Decidable (∀ f ∈ policy, _))

/-- **Inverted filtering** yields the members that the filter does not accept, in their order. -/
theorem filterImageList_inverted (tags : List T) (policy : Option ImageFilter)
    (ageBasis : Datetime) : filterImageList view tags policy ageBasis true false =
      if InRange policy ageBasis then
        some (tags.filter fun tag ↦ ¬ Accepts policy ageBasis (tags.map view) (view tag).tag)
      else none := by
  have hall : (tags.filter fun tag ↦ !(false && (view tag).isArchSpecific)) = tags := by simp
  rcases policy with _ | f
  · simp [filterImageList, InRange, Accepts]
  · rcases hdate : filterDate f ageBasis with _ | date
    · simp [filterImageList, InRange, hdate]
    · have hnames : (takeAccepted (fun tag ↦ rejects f date (view tag)) f.number 0 tags).map
          (fun tag ↦ (view tag).tag) =
          (newest f.number ((tags.map view).filter fun tag ↦ !rejects f date tag)).map
            RSPImageTag.tag := by
        rw [← takeAccepted_eq, ← map_takeAccepted, List.map_map]
        rfl
      have hrange : InRange (some f) ageBasis := by simp [InRange, hdate]
      rw [if_pos hrange]
      simp only [filterImageList, hall, Option.bind_eq_bind, hdate, Option.bind_some, if_true,
        hnames]
      simp [Accepts, hdate]

/-- Inverted filtering of a collection filters the list of every type. -/
theorem filter_inverted (c : RSPImageTagCollection T) (policy : ImageFilterPolicy)
    (ageBasis : Datetime) : c.filter view policy ageBasis true false =
      if ∀ t ∈ RSPImageType.all, InRange (policy.forImageType t) ageBasis then
        some <| RSPImageType.all.flatMap fun t ↦ (c.byType t).filter fun tag ↦
          ¬ Accepts (policy.forImageType t) ageBasis ((c.byType t).map view) (view tag).tag
      else none := by
  rw [filter, mapM_eq_ite fun t ↦ filterImageList_inverted (c.byType t) (policy.forImageType t)
    ageBasis]
  split
  · rw [Option.map_some, List.flatMap_def]
  · rfl

end Accepting

end RSPImageTagCollection

end Nublado.Images
