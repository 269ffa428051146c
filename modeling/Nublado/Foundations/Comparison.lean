import Mathlib.Data.List.Sort
import Mathlib.Order.Compare

/-!
# Three-way comparisons and sorting

A three-way comparison that is reflexive, antisymmetric in sign and transitive is a `Std.TransCmp`.
This module adds two things to the library's own closure properties: comparisons of optional values,
with the absent value at either end, and stable sorting from greatest to least under a relation that
agrees with such a comparison only on the elements being sorted.

* `compareOptional_eq` reduces the comparison of optional values to the library's orders.
* `sortDescending_pairwise` is the sorting rule: it needs the comparison on members of the list
  only, so that values which the comparison does not order properly may exist outside it.
-/

namespace Nublado

/-- A comparison of keys compares the values. -/
theorem transCmp_comap {α β : Type} (cmp : β → β → Ordering) [Std.TransCmp cmp] (f : α → β) :
    Std.TransCmp fun a b ↦ cmp (f a) (f b) where
  eq_swap := Std.OrientedCmp.eq_swap
  isLE_trans := Std.TransCmp.isLE_trans

section Optional

variable {α : Type} [DecidableEq α] [LT α] [DecidableLT α]

/-- Compare two values that may be none; none is the smallest value or the largest. -/
def compareOptional (left right : Option α) (noneLast : Bool) : Ordering :=
  if left = right then .eq
  else match left, right with
    | none, _ => if noneLast then .gt else .lt
    | _, none => if noneLast then .lt else .gt
    | some left, some right => if left < right then .lt else .gt

/-- Two optional values compare equal only if they are the same. -/
theorem compareOptional_eq_eq {left right : Option α} {noneLast : Bool} :
    compareOptional left right noneLast = .eq ↔ left = right := by
  by_cases h : left = right
  · simp [compareOptional, h]
  · refine iff_of_false ?_ h
    rcases left with _ | left <;> rcases right with _ | right
    · exact (h rfl).elim
    · cases noneLast <;> simp [compareOptional]
    · cases noneLast <;> simp [compareOptional]
    · rw [Option.some_inj] at h
      rw [compareOptional, if_neg (by simpa using h)]
      by_cases hlt : left < right <;> simp [hlt]

variable [Ord α]

/-- The comparison of optional values in terms of the order of options, which has none first. -/
theorem compareOptional_eq (h : ∀ a b : α, compare a b = compareOfLessAndEq a b)
    (hirr : ∀ a : α, ¬ a < a) (a b : Option α) (noneLast : Bool) :
    compareOptional a b noneLast =
      (if noneLast then compare a.isNone b.isNone else .eq).then (compare a b) := by
  rcases a with _ | a <;> rcases b with _ | b
  · cases noneLast <;> rfl
  · cases noneLast <;> rfl
  · cases noneLast <;> rfl
  · have hsome : compare (some a) (some b) = compare a b := rfl
    rw [hsome, h, compareOfLessAndEq]
    rcases eq_or_ne a b with rfl | hne
    · cases noneLast <;> simp [compareOptional, hirr]
    · cases noneLast <;> simp [compareOptional, hne]

/-- Optional values of a totally ordered type are totally preordered, wherever none goes. -/
theorem transCmp_compareOptional [Std.TransOrd α]
    (h : ∀ a b : α, compare a b = compareOfLessAndEq a b) (hirr : ∀ a : α, ¬ a < a)
    (noneLast : Bool) : Std.TransCmp fun a b : Option α ↦ compareOptional a b noneLast := by
  simp only [compareOptional_eq h hirr]
  cases noneLast with
  | false =>
    simp only [Bool.false_eq_true, if_false, Ordering.eq_then]
    infer_instance
  | true =>
    have hnone : Std.TransCmp fun a b : Option α ↦ compare a.isNone b.isNone :=
      transCmp_comap compare Option.isNone
    exact inferInstanceAs <| Std.TransCmp <|
      compareLex (fun a b : Option α ↦ compare a.isNone b.isNone) compare

end Optional

/-! ### Sorting from greatest to least -/

section Sorting

variable {α : Type} {lt : α → α → Bool} {l : List α}

/-- Sort from greatest to least; elements of which neither is less keep their order. -/
def sortDescending (lt : α → α → Bool) (l : List α) : List α :=
  l.insertionSort fun a b ↦ ¬ lt a b

theorem sortDescending_perm (lt : α → α → Bool) (l : List α) : (sortDescending lt l).Perm l :=
  List.perm_insertionSort _ l

@[simp] theorem mem_sortDescending {a : α} : a ∈ sortDescending lt l ↔ a ∈ l :=
  (sortDescending_perm lt l).mem_iff

/-- **The sorting rule.** Where `lt` is the strict part of a total preorder on the members of the
list, no element of the sorted list is less than one after it. -/
theorem sortDescending_pairwise {cmp : α → α → Ordering} [Std.TransCmp cmp]
    (h : ∀ a ∈ l, ∀ b ∈ l, lt a b = (cmp a b == .lt)) :
    (sortDescending lt l).Pairwise fun a b ↦ cmp a b ≠ .lt := by
  let r : α → α → Prop := fun a b ↦ cmp a b ≠ .lt
  have htotal : Std.Total r := ⟨fun a b ↦ by
    by_cases hab : cmp a b = .lt
    · exact Or.inr fun hba ↦ Std.OrientedCmp.not_lt_of_lt hab hba
    · exact Or.inl hab⟩
  have htrans : IsTrans α r := ⟨fun a b c hab hbc hac ↦ by
    have hba : (cmp b a).isLE := Std.OrientedCmp.isLE_of_isGE (Ordering.isGE_iff_ne_lt.2 hab)
    have hcb : (cmp c b).isLE := Std.OrientedCmp.isLE_of_isGE (Ordering.isGE_iff_ne_lt.2 hbc)
    exact Std.OrientedCmp.not_lt_of_isLE (Std.TransCmp.isLE_trans hcb hba) hac⟩
  have hsort : sortDescending lt l = l.insertionSort r := by
    have := List.map_insertionSort (fun a b ↦ ¬ lt a b) r id l fun a ha b hb ↦ by
      simp [r, h a ha b hb]
    simpa [sortDescending] using this
  rw [hsort]
  exact List.pairwise_insertionSort r l

/-- The head of a list sorted from greatest to least is not less than any element. -/
theorem not_lt_of_head {cmp : α → α → Ordering} [Std.OrientedCmp cmp] {a : α}
    (h : l.Pairwise fun a b ↦ cmp a b ≠ .lt) (ha : l.head? = some a) {b : α} (hb : b ∈ l) :
    cmp a b ≠ .lt := by
  cases l with
  | nil => simp at ha
  | cons c cs =>
    obtain rfl : c = a := by simpa using ha
    rcases List.mem_cons.1 hb with rfl | hb
    · simp [Std.ReflCmp.compare_self]
    · exact List.rel_of_pairwise_cons h hb

end Sorting

end Nublado
