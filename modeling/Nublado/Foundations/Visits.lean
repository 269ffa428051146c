import Mathlib.Algebra.Order.BigOperators.Group.Finset
import Mathlib.Data.List.Count
import Mathlib.Data.Nat.Find

/-!
# How often a sequence comes to a place

A walk from place to place that may be endless is cut short by a count of visits: it stops before it
would come to a place more often than `k` times. `visits t n a` is how often the sequence `t` has been
at `a` before its `n`-th place, and `Fresh k t n` says that its `n`-th place has been visited less than
`k` times before.

## What stopping rests on

* `le_card_mul_of_visits_le` is the pigeonhole: a walk in finitely many places which comes to each of
  them at most `k` times is over after `k` times as many steps.
* `exists_end` finds the end of a walk which stops by itself (`Done`) or where the next place is not
  fresh.

## A walk that leaves out where it starts

A count of the places behind the first one misses one visit of the first. `counts_start_iff` says
exactly what this costs: the walk stops as it would with all visits counted, unless its first place is
the first one that would be visited too often.
-/

namespace Nublado

variable {α : Type*} [DecidableEq α] {t : ℕ → α} {k n : ℕ} {a : α}

/-- How often `a` is among the first `n` places. -/
def visits (t : ℕ → α) (n : ℕ) (a : α) : ℕ := ((List.range n).map t).count a

@[simp] theorem visits_zero : visits t 0 a = 0 := rfl

theorem visits_succ : visits t (n + 1) a = visits t n a + if t n = a then 1 else 0 := by
  rw [visits, List.range_succ, List.map_append, List.count_append, List.map_singleton,
    List.count_singleton]
  simp only [beq_iff_eq]
  rfl

theorem visits_succ_self : visits t (n + 1) (t n) = visits t n (t n) + 1 := by
  rw [visits_succ, if_pos rfl]

/-- Later on there are no fewer visits. -/
theorem visits_mono {m : ℕ} (h : m ≤ n) (a : α) : visits t m a ≤ visits t n a := by
  induction n, h using Nat.le_induction with
  | base => exact le_rfl
  | succ n _ ih =>
    rw [visits_succ]
    omega

/-- The first place and those behind it. -/
theorem visits_succ_eq (t : ℕ → α) (n : ℕ) (a : α) :
    visits t (n + 1) a = (if t 0 = a then 1 else 0) + visits (fun i ↦ t (i + 1)) n a := by
  induction n with
  | zero => rw [visits_succ, visits_zero, visits_zero, Nat.add_comm]
  | succ n ih =>
    rw [visits_succ, ih, visits_succ]
    omega

/-- The `n`-th place has been visited less than `k` times before. -/
def Fresh (k : ℕ) (t : ℕ → α) (n : ℕ) : Prop := visits t n (t n) < k

instance (k : ℕ) (t : ℕ → α) (n : ℕ) : Decidable (Fresh k t n) :=
  inferInstanceAs (Decidable (visits t n (t n) < k))

/-- Places that are fresh when they are visited are visited at most `k` times. -/
theorem visits_le_iff : (∀ a, visits t n a ≤ k) ↔ ∀ i < n, Fresh k t i := by
  constructor
  · intro h i hi
    have hlater := visits_mono (Nat.succ_le_of_lt hi) (t i) (t := t)
    rw [visits_succ_self] at hlater
    have hle := h (t i)
    show visits t i (t i) < k
    omega
  · intro h a
    induction n with
    | zero => exact Nat.zero_le k
    | succ n ih =>
      rw [visits_succ]
      split
      · next heq =>
        subst heq
        exact h n (Nat.lt_succ_self n)
      · exact ih fun i hi ↦ h i (Nat.lt_succ_of_lt hi)

/-! ### The end of a walk -/

/-- **The pigeonhole**: a walk in finitely many places that comes to none of them more than `k` times is
short. -/
theorem le_card_mul_of_visits_le {F : Finset α} (hF : ∀ i < n, t i ∈ F)
    (h : ∀ a, visits t n a ≤ k) : n ≤ k * F.card := by
  have hcount : ∀ a, ((Finset.range n).filter fun i ↦ t i = a).card = visits t n a := by
    intro a
    induction n with
    | zero => rfl
    | succ n ih =>
      have hn := ih (fun i hi ↦ hF i (Nat.lt_succ_of_lt hi)) fun a ↦
        (visits_mono (Nat.le_succ n) a).trans (h a)
      rw [visits_succ, Finset.range_add_one, Finset.filter_insert, ← hn]
      split
      · rw [Finset.card_insert_of_notMem (by simp)]
      · rfl
  have hmaps : ∀ i ∈ Finset.range n, t i ∈ F := fun i hi ↦ hF i (Finset.mem_range.1 hi)
  have hcard := Finset.card_le_mul_card_image_of_maps_to hmaps k fun a _ ↦ by
    rw [hcount]
    exact h a
  rwa [Finset.card_range] at hcard

/-- The walk goes on from its first `n` places: it does not stop by itself, and the next place is fresh
among those behind the first. -/
def WalksOn (k : ℕ) (stop : ℕ → Prop) (t : ℕ → α) (n : ℕ) : Prop :=
  ∀ i < n, ¬ stop i ∧ Fresh k (fun i ↦ t (i + 1)) i

/-- **Every walk in finitely many places ends.** -/
theorem exists_end {stop : ℕ → Prop} {F : Finset α}
    (hF : ∀ n, (∀ i ≤ n, ¬ stop i) → t (n + 1) ∈ F) (k : ℕ) :
    ∃ n, WalksOn k stop t n ∧ (stop n ∨ ¬ Fresh k (fun i ↦ t (i + 1)) n) := by
  classical
  have hends : ∃ n, stop n ∨ ¬ Fresh k (fun i ↦ t (i + 1)) n := by
    by_contra hnever
    simp only [not_exists, not_or, not_not] at hnever
    have hmem : ∀ i, t (i + 1) ∈ F := fun i ↦ hF i fun j _ ↦ (hnever j).1
    have hshort := le_card_mul_of_visits_le (n := k * F.card + 1) (fun i _ ↦ hmem i)
      (visits_le_iff.2 fun i _ ↦ (hnever i).2)
    omega
  refine ⟨Nat.find hends, fun i hi ↦ ?_, Nat.find_spec hends⟩
  have hbefore := Nat.find_min hends hi
  simp only [not_or, not_not] at hbefore
  exact hbefore

/-! ### The visit that is not counted -/

/-- The first place is not the first one that would be visited more than `k` times. -/
def StartsInTime (k : ℕ) (stop : ℕ → Prop) (t : ℕ → α) : Prop :=
  ∀ n, (∀ i < n, ¬ stop i ∧ Fresh k t i) → t n = t 0 → Fresh k t n

/-- A place behind the first one, where it is not the first place again, is as fresh as it seems. -/
theorem fresh_succ_iff (h : t (n + 1) ≠ t 0) :
    Fresh k t (n + 1) ↔ Fresh k (fun i ↦ t (i + 1)) n := by
  rw [Fresh, Fresh, visits_succ_eq, if_neg h.symm, Nat.zero_add]

/-- **What the visit costs.** Where a walk ends it has come to no place more than `k` times, and to the
next place `k` times if it does not stop by itself, exactly if its first place is not the first one that
would be visited more often. -/
theorem counts_start_iff {stop : ℕ → Prop} (hgoes : WalksOn k stop t n)
    (hend : stop n ∨ ¬ Fresh k (fun i ↦ t (i + 1)) n) :
    ((∀ a, visits t (n + 1) a ≤ k) ∧ (¬ stop n → visits t (n + 1) (t (n + 1)) = k)) ↔
      StartsInTime k stop t := by
  constructor
  · rintro ⟨hle, hnext⟩ m hbefore hstart
    have hfresh := visits_le_iff.1 hle
    by_cases hm : m < n + 1
    · exact hfresh m hm
    · obtain ⟨hstop, -⟩ := hbefore n (by omega)
      have hk := hnext hstop
      -- the next place has had its visits, so it is the one where the walk is looked at
      have hlast : m = n + 1 := by
        by_contra hne
        obtain ⟨-, hlt⟩ := hbefore (n + 1) (by omega)
        exact absurd hk hlt.ne
      subst hlast
      have hmany := hend.resolve_left hstop
      rw [visits_succ_eq, if_pos hstart.symm] at hk
      have hfew : visits (fun i ↦ t (i + 1)) n (t (n + 1)) < k := by omega
      exact absurd hfew hmany
  · intro hstart
    have hfresh : ∀ i < n + 1, Fresh k t i := by
      intro i
      induction i using Nat.strong_induction_on with
      | _ i ih =>
        intro hi
        have hbefore : ∀ j < i, ¬ stop j ∧ Fresh k t j := fun j hj ↦
          ⟨(hgoes j (by omega)).1, ih j hj (by omega)⟩
        rcases i with _ | j
        · exact hstart 0 hbefore rfl
        · by_cases heq : t (j + 1) = t 0
          · exact hstart (j + 1) hbefore heq
          · exact (fresh_succ_iff heq).2 (hgoes j (by omega)).2
    have hle := visits_le_iff.2 hfresh
    refine ⟨hle, fun hstop ↦ le_antisymm (hle _) ?_⟩
    have hmany := not_lt.1 (hend.resolve_left hstop)
    rw [visits_succ_eq]
    exact hmany.trans (Nat.le_add_left _ _)

end Nublado
