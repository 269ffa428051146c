import Mathlib.Data.List.Basic

/-!
# Event flags and replayable event queues

* `EventFlag` is the event object of the event loop. Setting it wakes everyone who was already
  waiting, even if the flag is cleared before they run; so the number of times it was set is kept
  next to the flag, and a waiter remembers the number it saw when it started to wait.
* `Stream` is one generation of a multiple-reader queue: what was put on it and whether the end of
  the data was marked. Clearing such a queue ends the current generation — readers of it see its
  end — and starts an empty one; nothing can be put on a generation that has ended.
-/

namespace Nublado

/-- An event flag with the number of times it was set. -/
structure EventFlag where
  isSet : Bool := false
  sets : ℕ := 0

namespace EventFlag

/-- Set the flag and wake all waiters. -/
def set (e : EventFlag) : EventFlag := ⟨true, e.sets + 1⟩

/-- Reset the flag. -/
def clear (e : EventFlag) : EventFlag := { e with isSet := false }

/-- Whether a waiter that saw `since` settings has been woken. -/
def woken (e : EventFlag) (since : ℕ) : Bool := since < e.sets

/-- Setting the flag wakes everyone who waits for it. -/
theorem woken_set {e : EventFlag} {since : ℕ} (h : since ≤ e.sets) : e.set.woken since = true :=
  decide_eq_true (Nat.lt_succ_of_le h)

/-- Clearing the flag does not put a woken waiter back to sleep. -/
theorem woken_clear (e : EventFlag) (since : ℕ) : e.clear.woken since = e.woken since := rfl

end EventFlag

/-- One generation of a multiple-reader queue. -/
structure Stream (α : Type) where
  contents : List α := []
  finished : Bool := false

namespace Stream

variable {α : Type}

instance : Inhabited (Stream α) := ⟨{}⟩

/-- Add an item. -/
def put (q : Stream α) (a : α) : Stream α := { q with contents := q.contents ++ [a] }

/-- Mark the end of the data. -/
def close (q : Stream α) : Stream α := { q with finished := true }

@[simp] theorem finished_put (q : Stream α) (a : α) : (q.put a).finished = q.finished := rfl

@[simp] theorem finished_close (q : Stream α) : q.close.finished = true := rfl

end Stream

end Nublado
