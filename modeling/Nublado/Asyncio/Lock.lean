import Mathlib.Data.List.Basic

/-!
# A first-in first-out lock

The lock of a cooperative event loop. A task that finds the lock free takes it without yielding
control; any other task joins the end of a queue, and a release lets the task at the head of the
queue take the lock when it next runs. A task that arrives in between finds the queue nonempty and
lines up behind it, so the lock is granted strictly in order of arrival.

Two pieces of bookkeeping are recorded that the lock itself does not keep: who holds it, and why
each task asked for it (`κ`). Neither influences when the lock is granted. They make `line`
available — the purposes of the holder and of everyone waiting, in the order in which they are
served — which is what arguments about arrival order are about.
-/

namespace Nublado

/-- A first-in first-out lock used by tasks `τ` for purposes `κ`. -/
structure FifoLock (τ κ : Type) where
  /-- The task inside the critical section, if any. -/
  holder : Option (τ × κ) := none
  /-- The tasks waiting for the lock, in order of arrival. -/
  waiters : List (τ × κ) := []

namespace FifoLock

variable {τ κ : Type}

instance : Inhabited (FifoLock τ κ) := ⟨{}⟩

/-- Whether an arriving task takes the lock without yielding. -/
def free (l : FifoLock τ κ) : Bool := l.holder.isNone && l.waiters.isEmpty

/-- Enter the critical section. -/
def take (l : FifoLock τ κ) (t : τ) (k : κ) : FifoLock τ κ := { l with holder := some (t, k) }

/-- Join the end of the queue. -/
def enqueue (l : FifoLock τ κ) (t : τ) (k : κ) : FifoLock τ κ :=
  { l with waiters := l.waiters ++ [(t, k)] }

/-- The head of the queue leaves it and enters the critical section. -/
def grant (l : FifoLock τ κ) (t : τ) (k : κ) : FifoLock τ κ :=
  { holder := some (t, k), waiters := l.waiters.tail }

/-- Leave the critical section. -/
def release (l : FifoLock τ κ) : FifoLock τ κ := { l with holder := none }

/-- The purposes of the holder and of the waiting tasks, in the order in which they are served. -/
def line (l : FifoLock τ κ) : List κ := (l.holder.toList ++ l.waiters).map Prod.snd

theorem free_iff {l : FifoLock τ κ} : l.free = true ↔ l.holder = none ∧ l.waiters = [] := by
  simp [free]

@[simp] theorem holder_take (l : FifoLock τ κ) (t : τ) (k : κ) :
    (l.take t k).holder = some (t, k) := rfl

@[simp] theorem waiters_take (l : FifoLock τ κ) (t : τ) (k : κ) :
    (l.take t k).waiters = l.waiters := rfl

@[simp] theorem holder_enqueue (l : FifoLock τ κ) (t : τ) (k : κ) :
    (l.enqueue t k).holder = l.holder := rfl

@[simp] theorem waiters_enqueue (l : FifoLock τ κ) (t : τ) (k : κ) :
    (l.enqueue t k).waiters = l.waiters ++ [(t, k)] := rfl

@[simp] theorem holder_grant (l : FifoLock τ κ) (t : τ) (k : κ) :
    (l.grant t k).holder = some (t, k) := rfl

@[simp] theorem waiters_grant (l : FifoLock τ κ) (t : τ) (k : κ) :
    (l.grant t k).waiters = l.waiters.tail := rfl

@[simp] theorem holder_release (l : FifoLock τ κ) : l.release.holder = none := rfl

@[simp] theorem waiters_release (l : FifoLock τ κ) : l.release.waiters = l.waiters := rfl

/-! ### The line

How each operation changes who is served, and in which order. -/

/-- Taking a free lock makes the task's purpose the whole line. -/
theorem line_take_of_free {l : FifoLock τ κ} (h : l.free = true) (t : τ) (k : κ) :
    (l.take t k).line = [k] := by
  obtain ⟨-, hw⟩ := free_iff.1 h
  simp [line, hw]

/-- An arrival that has to wait is served last. -/
theorem line_enqueue (l : FifoLock τ κ) (t : τ) (k : κ) : (l.enqueue t k).line = l.line ++ [k] := by
  simp [line]

/-- Granting the lock to the head of the queue changes nobody's place. -/
theorem line_grant {l : FifoLock τ κ} {t : τ} {k : κ} {ws : List (τ × κ)} (hh : l.holder = none)
    (hw : l.waiters = (t, k) :: ws) : (l.grant t k).line = l.line := by
  simp [line, hh, hw]

/-- The holder is at the head of the line, and a release removes it. -/
theorem line_eq_cons_release {l : FifoLock τ κ} {t : τ} {k : κ} (h : l.holder = some (t, k)) :
    l.line = k :: l.release.line := by
  simp [line, h]

/-- A waiting task's purpose is in the line. -/
theorem mem_line_of_mem_waiters {l : FifoLock τ κ} {t : τ} {k : κ} (h : (t, k) ∈ l.waiters) :
    k ∈ l.line := by
  simp only [line, List.mem_map, List.mem_append]
  exact ⟨(t, k), Or.inr h, rfl⟩

/-- The holder's purpose is in the line. -/
theorem mem_line_of_holder {l : FifoLock τ κ} {t : τ} {k : κ} (h : l.holder = some (t, k)) :
    k ∈ l.line := by
  rw [line_eq_cons_release h]
  exact List.mem_cons_self

/-! ### Places -/

/-- Nobody moves back when others leave the queue. -/
theorem idxOf_filter_le {α : Type} [BEq α] [LawfulBEq α] {p : α → Bool} {a : α} (ha : p a = true)
    (l : List α) : (l.filter p).idxOf a ≤ l.idxOf a := by
  induction l with
  | nil => exact Nat.le_refl _
  | cons b l ih =>
    by_cases hba : b = a
    · rw [hba, List.filter_cons_of_pos ha, List.idxOf_cons_self]
      exact Nat.zero_le _
    · rw [List.idxOf_cons_ne _ hba, List.filter_cons]
      split
      · rw [List.idxOf_cons_ne _ hba]
        exact Nat.succ_le_succ ih
      · exact Nat.le_succ_of_le ih

end FifoLock

end Nublado
