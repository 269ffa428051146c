import Nublado.Foundations.Dict

/-!
# Nested settings

A mapping of settings has a value or another mapping under each of its keys, so a setting is found
along a path of keys. `Settings.get` follows a path; what is there, if it is a value, is the setting.

* **Pruning** removes the values that count as nothing, and the mappings that nothing is left in.
  Where no mapping has a key twice it keeps every other setting and adds none (`get_prune`), and what
  has been pruned stays as it is (`pruneEntries_pruneEntries`).
* **Replacing a setting** changes it and no other (`get_replaceAt`), and what has been pruned stays
  pruned.

Pruning goes over the tree and its lemmas are inductions over the tree; reading and replacing go along
a path and their lemmas are inductions on the path.
-/

namespace Nublado

/-- Settings: a value, or what is under each key. -/
inductive Settings (κ ν : Type) where
  | value (v : ν)
  | mapping (entries : List (κ × Settings κ ν))

namespace Settings

variable {κ ν : Type}

/-! ### Equality -/

section DecEq

variable [DecidableEq κ] [DecidableEq ν]

mutual

/-- Equality of settings, which can be evaluated. -/
def decEq : (s t : Settings κ ν) → Decidable (s = t)
  | .value v, .value w => decidable_of_iff (v = w) ⟨congrArg _, value.inj⟩
  | .value _, .mapping _ => .isFalse fun h ↦ by cases h
  | .mapping _, .value _ => .isFalse fun h ↦ by cases h
  | .mapping es, .mapping fs =>
    have := decEqEntries es fs
    decidable_of_iff (es = fs) ⟨congrArg _, mapping.inj⟩

def decEqEntries : (es fs : List (κ × Settings κ ν)) → Decidable (es = fs)
  | [], [] => .isTrue rfl
  | [], _ :: _ => .isFalse (List.cons_ne_nil _ _).symm
  | _ :: _, [] => .isFalse (List.cons_ne_nil _ _)
  | (k, s) :: es, (k', t) :: fs =>
    have := decEq s t
    have := decEqEntries es fs
    decidable_of_iff ((k = k' ∧ s = t) ∧ es = fs) (by rw [List.cons.injEq, Prod.mk.injEq])

end

instance : DecidableEq (Settings κ ν) := decEq

end DecEq

/-! ### Reading -/

section Get

variable [DecidableEq κ]

/-- What is found along a path of keys. -/
@[grind =] def get : Settings κ ν → List κ → Option (Settings κ ν)
  | s, [] => some s
  | .value _, _ :: _ => none
  | .mapping es, k :: p => (es.lookup k).bind (·.get p)

variable {s t : Settings κ ν} {es fs : List (κ × Settings κ ν)} {k : κ} {p q : List κ}
  {v w : ν}

@[simp] theorem get_nil (s : Settings κ ν) : s.get [] = some s := by
  cases s <;> rfl

@[simp] theorem get_value_cons (v : ν) (k : κ) (p : List κ) :
    (value v : Settings κ ν).get (k :: p) = none := rfl

@[simp] theorem get_mapping_cons (es : List (κ × Settings κ ν)) (k : κ) (p : List κ) :
    (mapping es).get (k :: p) = (es.lookup k).bind (·.get p) := rfl

theorem get_append (s : Settings κ ν) (p q : List κ) :
    s.get (p ++ q) = (s.get p).bind (·.get q) := by
  induction p generalizing s with
  | nil => simp
  | cons k p ih =>
    rcases s with v | es
    · rfl
    · rw [List.cons_append, get_mapping_cons, get_mapping_cons, Option.bind_assoc]
      exact Option.bind_congr fun t _ ↦ ih t

/-- Nothing is found beyond a value. -/
theorem eq_of_get_value (hp : s.get p = some (value v)) (hq : s.get (p ++ q) = some t) : q = [] := by
  rw [get_append, hp, Option.bind_some] at hq
  rcases q with _ | ⟨k, q⟩
  · rfl
  · cases hq

end Get

/-! ### Distinct keys -/

mutual

/-- No mapping has a key twice. -/
@[grind =] def Distinct : Settings κ ν → Prop
  | .value _ => True
  | .mapping es => DistinctKeys es ∧ DistinctEntries es

@[grind =] def DistinctEntries : List (κ × Settings κ ν) → Prop
  | [] => True
  | (_, s) :: es => s.Distinct ∧ DistinctEntries es

end

section Distinct

variable {s : Settings κ ν} {es : List (κ × Settings κ ν)} {k : κ}

theorem distinctEntries_iff : DistinctEntries es ↔ ∀ e ∈ es, e.2.Distinct := by
  induction es with
  | nil => simp [DistinctEntries]
  | cons e es ih => simp [DistinctEntries, ih]

theorem Distinct.of_lookup [DecidableEq κ] (h : (mapping es).Distinct) (hs : es.lookup k = some s) :
    s.Distinct := distinctEntries_iff.1 h.2 _ (mem_of_lookup hs)

end Distinct

/-! ### Pruning -/

section Prune

variable (drop : ν → Bool)

mutual

/-- The settings that are no dropped values; absent where nothing is left. -/
@[grind =] def prune : Settings κ ν → Option (Settings κ ν)
  | .value v => if drop v then none else some (.value v)
  | .mapping es => if pruneEntries es = [] then none else some (.mapping (pruneEntries es))

@[grind =] def pruneEntries : List (κ × Settings κ ν) → List (κ × Settings κ ν)
  | [] => []
  | (k, s) :: es => ((prune s).map fun t ↦ (k, t)).toList ++ pruneEntries es

end

variable {drop} {s t : Settings κ ν} {es : List (κ × Settings κ ν)} {k : κ} {v : ν}

theorem prune_value (h : drop v = false) : (value v : Settings κ ν).prune drop = some (value v) := by
  rw [prune, h]
  rfl

theorem prune_mapping (h : pruneEntries drop es ≠ []) :
    (mapping es).prune drop = some (mapping (pruneEntries drop es)) := by
  rw [prune, if_neg h]

/-- A pruned value is itself, a pruned mapping is the mapping of the pruned entries. -/
theorem prune_eq_some (h : s.prune drop = some t) :
    (∃ v, drop v = false ∧ s = value v ∧ t = value v) ∨
      ∃ es, pruneEntries drop es ≠ [] ∧ s = mapping es ∧ t = mapping (pruneEntries drop es) := by
  rcases s with v | es
  · rw [prune] at h
    split at h
    · cases h
    · next hv => exact Or.inl ⟨v, Bool.not_eq_true _ ▸ hv, rfl, (Option.some.inj h).symm⟩
  · rw [prune] at h
    split at h
    · cases h
    · next hes => exact Or.inr ⟨es, hes, rfl, (Option.some.inj h).symm⟩

theorem mem_pruneEntries {e : κ × Settings κ ν} :
    e ∈ pruneEntries drop es ↔ ∃ s, (e.1, s) ∈ es ∧ s.prune drop = some e.2 := by
  induction es with
  | nil => simp [pruneEntries]
  | cons f es ih =>
    obtain ⟨k, s⟩ := f
    rw [pruneEntries, List.mem_append, ih]
    constructor
    · rintro (he | ⟨t, ht, hprune⟩)
      · obtain ⟨t, ht, rfl⟩ := Option.map_eq_some_iff.1 (Option.mem_toList.1 he)
        exact ⟨s, List.mem_cons_self, ht⟩
      · exact ⟨t, List.mem_cons_of_mem _ ht, hprune⟩
    · rintro ⟨t, ht, hprune⟩
      rcases List.mem_cons.1 ht with heq | ht
      · left
        obtain ⟨hk, rfl⟩ := Prod.mk.inj heq
        rw [hprune, ← hk]
        simp
      · exact Or.inr ⟨t, ht, hprune⟩

/-- Pruning keeps the order of the keys. -/
theorem keys_pruneEntries (es : List (κ × Settings κ ν)) :
    ((pruneEntries drop es).map Prod.fst).Sublist (es.map Prod.fst) := by
  induction es with
  | nil => simp [pruneEntries]
  | cons e es ih =>
    obtain ⟨k, s⟩ := e
    rw [pruneEntries]
    rcases prune drop s with _ | t
    · exact ih.trans (List.sublist_cons_self _ _)
    · exact ih.cons_cons k

theorem distinctKeys_pruneEntries (h : DistinctKeys es) : DistinctKeys (pruneEntries drop es) :=
  h.sublist (keys_pruneEntries es)

mutual

/-- Pruning keeps the keys distinct everywhere. -/
theorem Distinct.prune : (s : Settings κ ν) → {t : Settings κ ν} → s.Distinct →
    s.prune drop = some t → t.Distinct
  | .value v, t, _, h => by
    obtain ⟨w, -, -, rfl⟩ | ⟨es, -, hs, -⟩ := prune_eq_some h
    · trivial
    · cases hs
  | .mapping es, t, hd, h => by
    obtain ⟨w, -, hs, -⟩ | ⟨fs, -, hs, rfl⟩ := prune_eq_some h
    · cases hs
    · cases hs
      exact ⟨distinctKeys_pruneEntries hd.1, DistinctEntries.prune es hd.2⟩

theorem DistinctEntries.prune : (es : List (κ × Settings κ ν)) → DistinctEntries es →
    DistinctEntries (pruneEntries drop es)
  | [], _ => trivial
  | (k, s) :: es, hd => by
    have hes := DistinctEntries.prune es hd.2
    rw [pruneEntries]
    rcases hs : Settings.prune drop s with _ | t
    · exact hes
    · exact ⟨Distinct.prune s hd.1 hs, hes⟩

end

/-- Entries are as they are after pruning if each of them is. -/
theorem pruneEntries_eq_self (h : ∀ e ∈ es, e.2.prune drop = some e.2) : pruneEntries drop es = es := by
  induction es with
  | nil => rfl
  | cons e es ih =>
    obtain ⟨k, s⟩ := e
    rw [pruneEntries, h (k, s) List.mem_cons_self, ih fun e he ↦ h e (List.mem_cons_of_mem _ he)]
    rfl

mutual

/-- **Pruning once is enough.** -/
theorem prune_prune : (s : Settings κ ν) → {t : Settings κ ν} → s.prune drop = some t →
    t.prune drop = some t
  | .value v, t, h => by
    obtain ⟨w, hw, hs, rfl⟩ | ⟨es, hes, hs, rfl⟩ := prune_eq_some h
    · exact prune_value hw
    · cases hs
  | .mapping es, t, h => by
    obtain ⟨w, hw, hs, rfl⟩ | ⟨fs, hfs, hs, rfl⟩ := prune_eq_some h
    · cases hs
    · cases hs
      have hself := pruneEntries_pruneEntries es
      rw [prune_mapping (by rwa [hself]), hself]

theorem pruneEntries_pruneEntries : (es : List (κ × Settings κ ν)) →
    pruneEntries drop (pruneEntries drop es) = pruneEntries drop es
  | [] => rfl
  | (k, s) :: es => by
    have hes := pruneEntries_pruneEntries es
    rw [pruneEntries]
    rcases hs : prune drop s with _ | t
    · exact hes
    · show pruneEntries drop ((k, t) :: pruneEntries drop es) = (k, t) :: pruneEntries drop es
      rw [pruneEntries, prune_prune s hs, hes]
      rfl

end

theorem entries_of_prune_self (h : (mapping es).prune drop = some (mapping es)) :
    pruneEntries drop es = es := by
  obtain ⟨v, -, hmap, -⟩ | ⟨fs, -, hfs, heq⟩ := prune_eq_some h
  · cases hmap
  · rw [← mapping.inj hfs] at heq
    exact (mapping.inj heq).symm

/-- The entries of what has been pruned have been pruned. -/
theorem prune_self_of_mem {e : κ × Settings κ ν} (h : pruneEntries drop es = es) (he : e ∈ es) :
    e.2.prune drop = some e.2 := by
  rw [← h] at he
  obtain ⟨s, -, hs⟩ := mem_pruneEntries.1 he
  exact prune_prune s hs

end Prune

section Pruned

variable [DecidableEq κ] {drop : ν → Bool} {s t : Settings κ ν} {es : List (κ × Settings κ ν)} {k : κ}
  {v : ν}

theorem lookup_pruneEntries (h : DistinctKeys es) (k : κ) :
    (pruneEntries drop es).lookup k = (es.lookup k).bind (prune drop) := by
  refine Option.ext fun t ↦ ?_
  rw [Option.bind_eq_some_iff]
  constructor
  · intro ht
    obtain ⟨s, hs, hprune⟩ := mem_pruneEntries.1 (mem_of_lookup ht)
    exact ⟨s, lookup_of_mem h hs, hprune⟩
  · rintro ⟨s, hs, hprune⟩
    exact lookup_of_mem (distinctKeys_pruneEntries h)
      (mem_pruneEntries.2 ⟨s, mem_of_lookup hs, hprune⟩)

/-- **Pruning keeps every setting that it does not drop, and adds none.** -/
theorem get_prune (h : s.Distinct) (hv : drop v = false) (p : List κ) :
    (s.prune drop).bind (·.get p) = some (value v) ↔ s.get p = some (value v) := by
  induction p generalizing s with
  | nil =>
    rw [get_nil, Option.bind_eq_some_iff]
    constructor
    · rintro ⟨t, ht, hval⟩
      obtain ⟨w, -, rfl, rfl⟩ | ⟨es, -, -, rfl⟩ := prune_eq_some ht
      · exact hval
      · rw [get_nil] at hval
        cases hval
    · intro hs
      rw [Option.some.inj hs]
      exact ⟨_, prune_value hv, get_nil _⟩
  | cons k p ih =>
    rcases s with w | es
    · rw [prune]
      split <;> simp
    · have hlookup : (pruneEntries drop es).lookup k = (es.lookup k).bind (prune drop) :=
        lookup_pruneEntries h.1 k
      have hiff : ((pruneEntries drop es).lookup k).bind (·.get p) = some (value v) ↔
          (es.lookup k).bind (·.get p) = some (value v) := by
        rw [hlookup]
        rcases hs : es.lookup k with _ | s
        · rfl
        · exact ih (h.of_lookup hs)
      rw [get_mapping_cons, ← hiff, prune]
      split
      · next hnil => simp [hnil]
      · rfl

end Pruned

/-! ### Setting -/

section Set

variable [DecidableEq κ] {drop : ν → Bool} {s t x : Settings κ ν} {es : List (κ × Settings κ ν)}
  {k : κ} {p : List κ} {v w y : ν}

/-- Replace what is found along a path, if anything is. -/
@[grind =] def replaceAt : Settings κ ν → Settings κ ν → List κ → Settings κ ν
  | _, x, [] => x
  | .value v, _, _ :: _ => .value v
  | .mapping es, x, k :: p =>
    .mapping (((es.lookup k).map fun s ↦ setKey es k (s.replaceAt x p)).getD es)

@[simp] theorem replaceAt_nil (s x : Settings κ ν) : s.replaceAt x [] = x := by
  cases s <;> rfl

theorem replaceAt_cons (h : es.lookup k = some s) (x : Settings κ ν) (p : List κ) :
    (mapping es).replaceAt x (k :: p) = mapping (setKey es k (s.replaceAt x p)) := by
  rw [replaceAt, h]
  rfl

/-- A setting is found below a mapping, where the mapping has the first key of its path. -/
theorem get_cons_eq_some (h : s.get (k :: p) = some x) :
    ∃ es t, s = mapping es ∧ es.lookup k = some t ∧ t.get p = some x := by
  rcases s with v | es
  · cases h
  · obtain ⟨t, ht, hget⟩ := Option.bind_eq_some_iff.1 h
    exact ⟨es, t, rfl, ht, hget⟩

/-- **Replacing a setting** changes it and no other. -/
theorem get_replaceAt (h : s.get p = some (value w)) (q : List κ) :
    (s.replaceAt (value y) p).get q = some (value v) ↔
      if q = p then v = y else s.get q = some (value v) := by
  induction p generalizing s q with
  | nil =>
    rw [get_nil] at h
    rw [replaceAt_nil, Option.some.inj h]
    rcases q with _ | ⟨k, q⟩
    · simp [eq_comm]
    · simp
  | cons k p ih =>
    obtain ⟨es, t, rfl, ht, hget⟩ := get_cons_eq_some h
    rw [replaceAt_cons ht]
    rcases q with _ | ⟨k', q⟩
    · simp
    · rw [get_mapping_cons, get_mapping_cons, lookup_setKey]
      rcases eq_or_ne k' k with rfl | hk
      · rw [if_pos rfl, Option.bind_some, ih hget, ht, Option.bind_some]
        simp only [List.cons.injEq, true_and]
      · rw [if_neg hk, if_neg fun heq ↦ hk (List.cons.inj heq).1]

/-- Of two settings that replace another, the second stays. -/
theorem replaceAt_replaceAt (h : s.get p = some t) (x y : Settings κ ν) :
    (s.replaceAt x p).replaceAt y p = s.replaceAt y p := by
  induction p generalizing s with
  | nil => rw [replaceAt_nil, replaceAt_nil]
  | cons k p ih =>
    obtain ⟨es, u, rfl, hu, hget⟩ := get_cons_eq_some h
    have hset : (setKey es k (u.replaceAt x p)).lookup k = some (u.replaceAt x p) := by
      rw [lookup_setKey, if_pos rfl]
    rw [replaceAt_cons hu, replaceAt_cons hset, replaceAt_cons hu, setKey_setKey, ih hget]

/-- Replacing a setting by itself is no change. -/
theorem replaceAt_self (hd : s.Distinct) (h : s.get p = some t) : s.replaceAt t p = s := by
  induction p generalizing s with
  | nil => rw [replaceAt_nil, ← Option.some.inj h]
  | cons k p ih =>
    obtain ⟨es, u, rfl, hu, hget⟩ := get_cons_eq_some h
    rw [replaceAt_cons hu, ih (hd.of_lookup hu) hget, setKey_of_lookup hd.1 hu]

theorem pruneEntries_setKey (h : pruneEntries drop es = es) (hs : s.prune drop = some s) :
    pruneEntries drop (setKey es k s) = setKey es k s := by
  refine pruneEntries_eq_self fun e he ↦ ?_
  rcases mem_setKey.1 he with ⟨he, -⟩ | rfl
  · exact prune_self_of_mem h he
  · exact hs

/-- The settings of what has been pruned are no dropped ones. -/
theorem drop_of_get (hs : s.prune drop = some s) (h : s.get p = some (value w)) : drop w = false := by
  induction p generalizing s with
  | nil =>
    rw [get_nil] at h
    obtain ⟨v, hv, rfl, -⟩ | ⟨es, -, rfl, -⟩ := prune_eq_some hs
    · rw [← value.inj (Option.some.inj h)]
      exact hv
    · cases h
  | cons k p ih =>
    obtain ⟨es, t, rfl, ht, hget⟩ := get_cons_eq_some h
    exact ih (prune_self_of_mem (entries_of_prune_self hs) (mem_of_lookup ht)) hget

/-- What has been pruned stays so if a setting is replaced by one that is kept. -/
theorem prune_replaceAt (hs : s.prune drop = some s) (h : s.get p = some (value w))
    (hy : drop y = false) :
    (s.replaceAt (value y) p).prune drop = some (s.replaceAt (value y) p) := by
  induction p generalizing s with
  | nil =>
    rw [replaceAt_nil]
    exact prune_value hy
  | cons k p ih =>
    obtain ⟨es, t, rfl, ht, hget⟩ := get_cons_eq_some h
    have hself := entries_of_prune_self hs
    have hset := pruneEntries_setKey (k := k) hself
      (ih (prune_self_of_mem hself (mem_of_lookup ht)) hget)
    rw [replaceAt_cons ht, prune_mapping (by rw [hset]; exact setKey_ne_nil), hset]

end Set

end Settings

end Nublado
