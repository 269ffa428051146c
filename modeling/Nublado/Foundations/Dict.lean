import Mathlib.Data.List.Nodup

/-!
# Dictionaries with insertion order

A dictionary that remembers insertion order is a list of pairs; `List.lookup` reads it. The lemmas
here are about dictionaries whose keys are distinct: what is found is exactly what is there, and
inserting keeps the keys distinct. `setKey` sets a key, `dictInsert` and `dictUpdate` set keys that are
texts.
-/

namespace Nublado

variable {α β : Type*} [DecidableEq α] {d : List (α × β)} {k k' : α} {b b' : β}

/-- The keys of a dictionary are distinct. -/
def DistinctKeys (d : List (α × β)) : Prop := (d.map Prod.fst).Nodup

theorem mem_of_lookup (h : d.lookup k = some b) : (k, b) ∈ d := by
  obtain ⟨l₁, l₂, rfl, -⟩ := List.lookup_eq_some_iff.1 h
  simp

theorem lookup_of_mem (hd : DistinctKeys d) (h : (k, b) ∈ d) : d.lookup k = some b := by
  induction d with
  | nil => cases h
  | cons p d ih =>
    obtain ⟨hp, hrest⟩ := List.nodup_cons.1 hd
    rw [List.lookup_cons]
    rcases List.mem_cons.1 h with rfl | h
    · simp
    · have hne : k ≠ p.1 := by
        rintro rfl
        exact hp (List.mem_map.2 ⟨(p.1, b), h, rfl⟩)
      rw [beq_false_of_ne hne]
      exact ih hrest h

/-- A dictionary is read from either end. -/
theorem lookup_reverse (hd : DistinctKeys d) (k : α) : d.reverse.lookup k = d.lookup k := by
  have hreverse : DistinctKeys d.reverse := by
    rw [DistinctKeys, List.map_reverse]
    exact List.nodup_reverse.2 hd
  refine Option.ext fun b ↦ ⟨fun h ↦ ?_, fun h ↦ ?_⟩
  · exact lookup_of_mem hd (List.mem_reverse.1 (mem_of_lookup h))
  · exact lookup_of_mem hreverse (List.mem_reverse.2 (mem_of_lookup h))

/-- Reading a dictionary that has been extended. -/
theorem lookup_concat_eq_some_iff (hnone : d.lookup k = none) :
    (d ++ [(k, b)]).lookup k' = some b' ↔ d.lookup k' = some b' ∨ k' = k ∧ b' = b := by
  rw [List.lookup_append]
  rcases eq_or_ne k' k with rfl | hne
  · simp [hnone, eq_comm]
  · simp [List.lookup_cons, beq_false_of_ne hne, hne]

theorem not_mem_keys_iff : k ∉ d.map Prod.fst ↔ d.lookup k = none := by
  rw [List.lookup_eq_none_iff]
  constructor
  · intro h p hp
    refine bne_iff_ne.2 ?_
    rintro rfl
    exact h (List.mem_map.2 ⟨p, hp, rfl⟩)
  · intro h hmem
    obtain ⟨p, hp, rfl⟩ := List.mem_map.1 hmem
    simpa using h p hp

/-- Reading a dictionary restricted to some of its keys. -/
theorem lookup_filter (f : α → Bool) (d : List (α × β)) (k : α) :
    (d.filter fun p ↦ f p.1).lookup k = if f k then d.lookup k else none := by
  induction d with
  | nil => simp
  | cons p d ih =>
    rcases hf : f p.1 with _ | _
    · rw [List.filter_cons_of_neg (by simp [hf]), ih, List.lookup_cons]
      rcases eq_or_ne k p.1 with rfl | hne
      · simp [hf]
      · simp [beq_false_of_ne hne]
    · rw [List.filter_cons_of_pos (by simp [hf]), List.lookup_cons, List.lookup_cons, ih]
      rcases eq_or_ne k p.1 with rfl | hne
      · simp [hf]
      · simp [beq_false_of_ne hne]

/-- Dictionaries with the same keys in the same order are equal if they read the same. -/
theorem eq_of_lookup_eq {d d' : List (α × β)} (hd : DistinctKeys d)
    (hkeys : d.map Prod.fst = d'.map Prod.fst) (h : ∀ k, d.lookup k = d'.lookup k) : d = d' := by
  induction d generalizing d' with
  | nil =>
    rw [List.map_nil, eq_comm, List.map_eq_nil_iff] at hkeys
    exact hkeys.symm
  | cons p d ih =>
    obtain ⟨q, d', rfl⟩ : ∃ q e, d' = q :: e := by
      rcases d' with _ | ⟨q, e⟩
      · cases hkeys
      · exact ⟨q, e, rfl⟩
    obtain ⟨hkey, hrest⟩ := List.cons.inj hkeys
    obtain ⟨hp, hdistinct⟩ := List.nodup_cons.1 hd
    have hq : q.1 ∉ d'.map Prod.fst := by
      rw [← hkey, ← hrest]
      exact hp
    have hfirst := h p.1
    rw [List.lookup_cons, List.lookup_cons, hkey] at hfirst
    have hpq : p = q := by
      refine Prod.ext hkey ?_
      simpa using hfirst
    subst hpq
    rw [ih hdistinct hrest]
    intro k
    rcases eq_or_ne k p.1 with rfl | hne
    · rw [not_mem_keys_iff.1 hp, not_mem_keys_iff.1 hq]
    · have hk := h k
      rw [List.lookup_cons, List.lookup_cons, beq_false_of_ne hne] at hk
      exact hk

theorem DistinctKeys.concat (hd : DistinctKeys d) (hnone : d.lookup k = none) :
    DistinctKeys (d ++ [(k, b)]) := by
  rw [DistinctKeys, List.map_append]
  refine hd.append (List.nodup_singleton k) ?_
  simpa using not_mem_keys_iff.2 hnone

/-! ### Setting keys -/

/-- `d[k] = b`, at the position of the key if it is already there. -/
def setKey (d : List (α × β)) (k : α) (b : β) : List (α × β) :=
  if (d.lookup k).isSome then d.map fun p ↦ if p.1 = k then (k, b) else p else d ++ [(k, b)]

/-- Reading a dictionary one of whose keys has been set. -/
theorem lookup_setKey (d : List (α × β)) (k : α) (b : β) (k' : α) :
    (setKey d k b).lookup k' = if k' = k then some b else d.lookup k' := by
  have hmap : (d.map fun p ↦ if p.1 = k then (k, b) else p).lookup k' =
      if k' = k then (d.lookup k).map fun _ ↦ b else d.lookup k' := by
    induction d with
    | nil => simp
    | cons p d ih =>
      rw [List.map_cons, List.lookup_cons, List.lookup_cons, List.lookup_cons, ih]
      rcases eq_or_ne p.1 k with hp | hp
      · rcases eq_or_ne k' k with rfl | hk
        · simp [hp]
        · simp [hp, hk, beq_false_of_ne hk]
      · rcases eq_or_ne k' p.1 with rfl | hk
        · simp [hp]
        · simp only [if_neg hp, beq_false_of_ne hk, beq_false_of_ne hp.symm]
  rw [setKey]
  split
  · next hsome =>
    obtain ⟨c, hc⟩ := Option.isSome_iff_exists.1 hsome
    rw [hmap, hc]
    rfl
  · next hsome =>
    have hnone : d.lookup k = none := Option.not_isSome_iff_eq_none.1 hsome
    rcases eq_or_ne k' k with rfl | hk
    · rw [if_pos rfl, (lookup_concat_eq_some_iff hnone).2 (Or.inr ⟨rfl, rfl⟩)]
    · rw [if_neg hk, List.lookup_append]
      simp [List.lookup_cons, beq_false_of_ne hk]

/-- What is in a dictionary with another key was in it before. -/
theorem mem_setKey {p : α × β} : p ∈ setKey d k b ↔ p ∈ d ∧ p.1 ≠ k ∨ p = (k, b) := by
  rw [setKey]
  split
  · next hsome =>
    rw [List.mem_map]
    constructor
    · rintro ⟨q, hq, rfl⟩
      split
      · exact Or.inr rfl
      · next hne => exact Or.inl ⟨hq, hne⟩
    · rintro (⟨hp, hne⟩ | rfl)
      · exact ⟨p, hp, if_neg hne⟩
      · obtain ⟨c, hc⟩ := Option.isSome_iff_exists.1 hsome
        exact ⟨(k, c), mem_of_lookup hc, if_pos rfl⟩
  · next hnone =>
    have hkey : ∀ p ∈ d, p.1 ≠ k := by
      rintro p hp rfl
      exact not_mem_keys_iff.2 (Option.not_isSome_iff_eq_none.1 hnone) (List.mem_map.2 ⟨p, hp, rfl⟩)
    rw [List.mem_append, List.mem_singleton]
    exact or_congr_left ⟨fun hp ↦ ⟨hp, hkey p hp⟩, And.left⟩

/-- Setting a key keeps the keys distinct. -/
theorem distinctKeys_setKey (hd : DistinctKeys d) (k : α) (b : β) : DistinctKeys (setKey d k b) := by
  rw [setKey]
  split
  · have hkeys : (d.map fun p ↦ if p.1 = k then (k, b) else p).map Prod.fst = d.map Prod.fst := by
      rw [List.map_map]
      refine List.map_congr_left fun p _ ↦ ?_
      simp only [Function.comp_apply]
      split
      · next h => exact h.symm
      · rfl
    rw [DistinctKeys, hkeys]
    exact hd
  · next h => exact hd.concat (Option.not_isSome_iff_eq_none.1 h)

/-- A new key comes last. -/
theorem setKey_new {items : List (α × β)} (h : DistinctKeys (d ++ (k, b) :: items)) :
    setKey d k b = d ++ [(k, b)] := by
  have hnone : d.lookup k = none := by
    rw [← not_mem_keys_iff]
    rw [DistinctKeys, List.map_append, List.nodup_append] at h
    exact fun hmem ↦ h.2.2 _ hmem _ List.mem_cons_self rfl
  rw [setKey, hnone]
  rfl

theorem setKey_ne_nil : setKey d k b ≠ [] := by
  intro h
  have hlookup := lookup_setKey d k b k
  rw [h, if_pos rfl] at hlookup
  cases hlookup

/-- Of two values that a key is set to, the second stays. -/
theorem setKey_setKey (d : List (α × β)) (k : α) (b c : β) :
    setKey (setKey d k b) k c = setKey d k c := by
  have hsome : ((setKey d k b).lookup k).isSome := by
    rw [lookup_setKey, if_pos rfl]
    rfl
  have hmap : ∀ l : List (α × β), (l.map fun p ↦ if p.1 = k then (k, b) else p).map
      (fun p ↦ if p.1 = k then (k, c) else p) = l.map fun p ↦ if p.1 = k then (k, c) else p := by
    intro l
    rw [List.map_map]
    refine List.map_congr_left fun p _ ↦ ?_
    rw [Function.comp_apply]
    split <;> simp_all
  rw [setKey, if_pos hsome]
  by_cases h : (d.lookup k).isSome
  · rw [setKey, setKey, if_pos h, if_pos h, hmap]
  · have hnone : ∀ p ∈ d, (if p.1 = k then (k, c) else p) = p := by
      intro p hp
      refine if_neg ?_
      rintro rfl
      have hkey := not_mem_keys_iff.2 (Option.not_isSome_iff_eq_none.1 h)
      exact hkey (List.mem_map.2 ⟨p, hp, rfl⟩)
    rw [setKey, setKey, if_neg h, if_neg h, List.map_append, List.map_congr_left hnone, List.map_id',
      List.map_singleton, if_pos rfl]

/-- Setting a key to what it has already is no change. -/
theorem setKey_of_lookup (hd : DistinctKeys d) (h : d.lookup k = some b) : setKey d k b = d := by
  have hmap : ∀ p ∈ d, (if p.1 = k then (k, b) else p) = p := by
    rintro ⟨k', b'⟩ hp
    split
    · next heq =>
      obtain rfl : k' = k := heq
      rw [lookup_of_mem hd hp] at h
      rw [Option.some.inj h]
    · rfl
  rw [setKey, h, if_pos Option.isSome_some, List.map_congr_left hmap, List.map_id']

/-- Set a key of a dictionary, keeping its position if it is already there. -/
def dictInsert {α : Type} (d : List (String × α)) (key : String) (a : α) : List (String × α) :=
  if (d.lookup key).isSome then d.map fun p ↦ if p.1 = key then (key, a) else p
  else d ++ [(key, a)]

section Setting

variable {γ : Type} {d : List (String × γ)}

/-- Reading a dictionary one of whose keys has been set. -/
theorem lookup_dictInsert (d : List (String × γ)) (key : String) (c : γ) (k : String) :
    (dictInsert d key c).lookup k = if k = key then some c else d.lookup k :=
  lookup_setKey d key c k

/-- Setting a key keeps the keys distinct. -/
theorem distinctKeys_dictInsert (hd : DistinctKeys d)
    (key : String) (c : γ) : DistinctKeys (dictInsert d key c) := distinctKeys_setKey hd key c

/-- `d.update(d')`: set all keys of a dictionary. -/
def dictUpdate (d d' : List (String × γ)) : List (String × γ) :=
  d'.foldl (fun d p ↦ dictInsert d p.1 p.2) d

/-- Of several values for a key, the last one stays. -/
theorem lookup_dictUpdate (d d' : List (String × γ)) (k : String) :
    (dictUpdate d d').lookup k = (d'.reverse.lookup k).or (d.lookup k) := by
  induction d' generalizing d with
  | nil => rfl
  | cons p d' ih =>
    show (dictUpdate (dictInsert d p.1 p.2) d').lookup k = _
    rw [ih, lookup_dictInsert, List.reverse_cons, List.lookup_append, Option.or_assoc]
    congr 1
    obtain ⟨k', c⟩ := p
    rcases eq_or_ne k k' with rfl | hne
    · simp
    · simp [hne, List.lookup_cons, beq_false_of_ne hne]

/-- A dictionary whose keys are distinct is read as it is after it has been set. -/
theorem lookup_dictUpdate_of_mem {d' : List (String × γ)} (hd : DistinctKeys d') {k : String} {c : γ}
    (h : (k, c) ∈ d') : (dictUpdate d d').lookup k = some c := by
  rw [lookup_dictUpdate, lookup_reverse hd, lookup_of_mem hd h, Option.some_or]

/-- A key that is set keeps its place, or comes last. -/
theorem keys_dictInsert (d : List (String × γ)) (key : String) (c : γ) :
    (dictInsert d key c).map Prod.fst =
      if key ∈ d.map Prod.fst then d.map Prod.fst else d.map Prod.fst ++ [key] := by
  have hmem : key ∈ d.map Prod.fst ↔ (d.lookup key).isSome = true := by
    rw [← not_iff_not, not_mem_keys_iff, Option.not_isSome_iff_eq_none]
  unfold dictInsert
  by_cases h : (d.lookup key).isSome = true
  · rw [if_pos h, if_pos (hmem.2 h), List.map_map]
    refine List.map_congr_left fun p _ ↦ ?_
    simp only [Function.comp_apply]
    split
    · next heq => exact heq.symm
    · rfl
  · rw [if_neg h, if_neg fun hkey ↦ h (hmem.1 hkey), List.map_append]
    rfl

section Updating

variable {items : List (String × γ)} {p : String × γ}

theorem distinctKeys_dictUpdate (hd : DistinctKeys d) (items : List (String × γ)) :
    DistinctKeys (dictUpdate d items) := by
  induction items generalizing d with
  | nil => exact hd
  | cons p items ih => exact ih (distinctKeys_dictInsert hd p.1 p.2)

/-- Keys that are there keep their places. -/
theorem keys_dictUpdate_of_subset (h : ∀ p ∈ items, p.1 ∈ d.map Prod.fst) :
    (dictUpdate d items).map Prod.fst = d.map Prod.fst := by
  induction items generalizing d with
  | nil => rfl
  | cons p items ih =>
    obtain ⟨hp, hitems⟩ := List.forall_mem_cons.1 h
    have hkeys : (dictInsert d p.1 p.2).map Prod.fst = d.map Prod.fst := by
      rw [keys_dictInsert, if_pos hp]
    show (dictUpdate (dictInsert d p.1 p.2) items).map Prod.fst = _
    rw [ih (by rwa [hkeys]), hkeys]

/-- **The keys of a dictionary that has been updated** are searched as if all keys were still there. -/
theorem findSome?_keys_dictUpdate {δ : Type*} (f : String → Option δ) (d items : List (String × γ)) :
    ((dictUpdate d items).map Prod.fst).findSome? f =
      (d.map Prod.fst ++ items.map Prod.fst).findSome? f := by
  induction items generalizing d with
  | nil => rw [List.map_nil, List.append_nil]; rfl
  | cons p items ih =>
    show ((dictUpdate (dictInsert d p.1 p.2) items).map Prod.fst).findSome? f = _
    rw [ih, keys_dictInsert, List.map_cons]
    split
    · next hmem =>
      rw [List.findSome?_append, List.findSome?_append, List.findSome?_cons]
      rcases hfirst : (d.map Prod.fst).findSome? f with _ | b
      · rw [List.findSome?_eq_none_iff.1 hfirst p.1 hmem]
      · rfl
    · rw [List.append_assoc, List.singleton_append]

theorem mem_dictInsert {key : String} {c : γ} (h : p ∈ dictInsert d key c) : p ∈ d ∨ p = (key, c) :=
  (mem_setKey.1 h).imp_left And.left

/-- What is in a dictionary was in it, or has been set. -/
theorem mem_dictUpdate (h : p ∈ dictUpdate d items) : p ∈ d ∨ p ∈ items := by
  induction items generalizing d with
  | nil => exact Or.inl h
  | cons q items ih =>
    rcases ih h with h | h
    · rcases mem_dictInsert h with h | rfl
      · exact Or.inl h
      · exact Or.inr List.mem_cons_self
    · exact Or.inr (List.mem_cons_of_mem _ h)

/-- Keys that have been set are there. -/
theorem mem_keys_dictUpdate (h : p ∈ items) : p.1 ∈ (dictUpdate d items).map Prod.fst := by
  by_contra hnot
  rw [not_mem_keys_iff, lookup_dictUpdate, Option.or_eq_none_iff, List.lookup_eq_none_iff] at hnot
  simpa using hnot.1 p (List.mem_reverse.2 h)

/-- New keys come last, in order. -/
theorem dictUpdate_eq_append (h : DistinctKeys (d ++ items)) : dictUpdate d items = d ++ items := by
  induction items generalizing d with
  | nil => exact (List.append_nil d).symm
  | cons p items ih =>
    have hnone : d.lookup p.1 = none := by
      rw [← not_mem_keys_iff]
      rw [DistinctKeys, List.map_append, List.nodup_append] at h
      exact fun hmem ↦ h.2.2 _ hmem _ List.mem_cons_self rfl
    have hinsert : dictInsert d p.1 p.2 = d ++ [p] := by
      rw [dictInsert, hnone]
      rfl
    show dictUpdate (dictInsert d p.1 p.2) items = _
    rw [hinsert, ih (by rwa [List.append_assoc, List.singleton_append]), List.append_assoc,
      List.singleton_append]

/-- **Updating twice is updating once.** -/
theorem dictUpdate_dictUpdate (hd : DistinctKeys d) (items : List (String × γ)) :
    dictUpdate (dictUpdate d items) items = dictUpdate d items := by
  refine eq_of_lookup_eq (distinctKeys_dictUpdate (distinctKeys_dictUpdate hd _) _) ?_ fun k ↦ ?_
  · exact keys_dictUpdate_of_subset fun p hp ↦ mem_keys_dictUpdate hp
  · rw [lookup_dictUpdate, lookup_dictUpdate, ← Option.or_assoc, Option.or_self]

end Updating

end Setting

end Nublado
