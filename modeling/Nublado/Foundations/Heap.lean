import Mathlib.Tactic.Common

/-!
# A heap of objects of one class

Objects that a program shares by reference live in a `Heap`: a reference is a number, allocation
hands out the next one, and a write through a reference changes that object only. Reading is total;
a reference that was never handed out reads the default object, and the development that uses a heap
proves that its references are below `size`.
-/

namespace Nublado

/-- Objects of type `α` by reference. -/
structure Heap (α : Type) where
  /-- The number of objects allocated so far, which is also the next reference. -/
  size : ℕ
  /-- The object at each reference. -/
  cell : ℕ → α

namespace Heap

variable {α : Type}

instance : CoeFun (Heap α) fun _ ↦ ℕ → α := ⟨Heap.cell⟩

/-- The heap without objects. -/
def empty [Inhabited α] : Heap α := ⟨0, fun _ ↦ default⟩

/-- The heap of the given objects, in order. -/
def ofList [Inhabited α] (l : List α) : Heap α := ⟨l.length, fun i ↦ l.getD i default⟩

/-- Write through the reference `i`. -/
def modify (h : Heap α) (i : ℕ) (f : α → α) : Heap α :=
  { h with cell := fun j ↦ if j = i then f (h j) else h j }

/-- Allocate an object; its reference is the old `size`. -/
def alloc (h : Heap α) (a : α) : Heap α :=
  ⟨h.size + 1, fun j ↦ if j = h.size then a else h j⟩

@[simp] theorem size_empty [Inhabited α] : (empty : Heap α).size = 0 := rfl

@[simp] theorem empty_apply [Inhabited α] (i : ℕ) : (empty : Heap α) i = default := rfl

@[simp] theorem size_ofList [Inhabited α] (l : List α) : (ofList l).size = l.length := rfl

/-- Reading a reference below the size. -/
theorem ofList_of_lt [Inhabited α] {l : List α} {i : ℕ} (hi : i < l.length) :
    (ofList l) i = l[i] := by
  simp [ofList, hi]

/-- Reading a reference that was never handed out. -/
theorem ofList_of_ge [Inhabited α] {l : List α} {i : ℕ} (hi : l.length ≤ i) :
    (ofList l) i = default := by
  simp [ofList, hi]

/-- The objects of a list, in order. -/
theorem map_ofList [Inhabited α] (l : List α) : (List.range l.length).map (ofList l) = l := by
  refine List.ext_getElem (by simp) fun i hi hi' ↦ ?_
  simp [ofList_of_lt hi']

/-- The objects from the reference of the first of `l'` on are those of `l'`. -/
theorem map_ofList_append [Inhabited α] (l l' : List α) :
    (List.range' l.length l'.length).map (ofList (l ++ l')) = l' := by
  refine List.ext_getElem (by simp) fun i hi hi' ↦ ?_
  have hlt : l.length + i < (l ++ l').length := by
    rw [List.length_append]
    omega
  simp [ofList_of_lt hlt]

@[simp] theorem size_modify (h : Heap α) (i : ℕ) (f : α → α) : (h.modify i f).size = h.size := rfl

@[simp] theorem size_alloc (h : Heap α) (a : α) : (h.alloc a).size = h.size + 1 := rfl

@[grind =] theorem modify_apply (h : Heap α) (i j : ℕ) (f : α → α) :
    (h.modify i f) j = if j = i then f (h j) else h j := rfl

@[grind =] theorem alloc_apply (h : Heap α) (a : α) (j : ℕ) :
    (h.alloc a) j = if j = h.size then a else h j := rfl

@[simp] theorem modify_self (h : Heap α) (i : ℕ) (f : α → α) : (h.modify i f) i = f (h i) := by
  simp [modify_apply]

@[simp] theorem modify_of_ne (h : Heap α) {i j : ℕ} (f : α → α) (hji : j ≠ i) :
    (h.modify i f) j = h j := by
  simp [modify_apply, hji]

@[simp] theorem alloc_size_self (h : Heap α) (a : α) : (h.alloc a) h.size = a := by
  simp [alloc_apply]

/-- Allocation leaves the objects already there alone. -/
theorem alloc_of_lt (h : Heap α) (a : α) {j : ℕ} (hj : j < h.size) : (h.alloc a) j = h j := by
  rw [alloc_apply, if_neg (by omega)]

/-- Two writes to one object are one. -/
theorem modify_modify (h : Heap α) (i : ℕ) (f g : α → α) :
    (h.modify i f).modify i g = h.modify i fun a ↦ g (f a) := by
  refine congrArg (Heap.mk h.size) (funext fun j ↦ ?_)
  show (if j = i then g (if j = i then f (h j) else h j) else if j = i then f (h j) else h j) =
    if j = i then g (f (h j)) else h j
  split <;> rfl

/-- A write of what is there is no change. -/
theorem modify_eq_self {h : Heap α} {i : ℕ} {f : α → α} (hf : f (h i) = h i) : h.modify i f = h := by
  refine congrArg (Heap.mk h.size) (funext fun j ↦ ?_)
  show (if j = i then f (h j) else h j) = h j
  split
  · next hji => rw [hji, hf]
  · rfl

/-- A write that keeps a field keeps that field of every object. -/
theorem modify_field {β : Type} (π : α → β) (h : Heap α) (i j : ℕ) (f : α → α)
    (hf : π (f (h i)) = π (h i)) : π ((h.modify i f) j) = π (h j) := by
  rw [modify_apply]
  split
  · next hji => rw [hji, hf]
  · rfl

end Heap

end Nublado
