import Nublado.Asyncio.Lock
import Nublado.Foundations.Trace
import Mathlib.Data.List.Nodup
import Mathlib.Logic.Function.Basic

/-!
# A slot for one operation at a time

The pattern behind "only one operation may be in progress": a slot records the operation that is
running, a first-in first-out lock protects the record, and each operation is a background task of
its own. Callers use the slot through three methods.

* `monitor` takes the lock and either starts an operation or reports a conflict.
* `wait` takes the lock to look up the recorded operation, waits for its completion event outside
  the lock, and then takes the lock a second time (`reap`) to collect the task and clear the record
  if it is still the same operation.
* `cancel` takes the lock, cancels the recorded operation's task, waits for it inside the critical
  section and clears the record.

This module is the protocol alone: tasks `τ`, requests `ρ` and operations `ο` are arbitrary types,
what an operation does is not mentioned, and callers may use the methods in any order. `Slot.Step`
has one constructor for each way the methods can run between two suspension points.

## The two invariants

* `Slot.Safe` needs nothing of the callers. It rests on the lock: an operation that has not ended is
  the one on record (`unfinished`), because the record is cleared only by a task that holds the lock
  and has seen the operation end.
* `Slot.Ordered` is the argument about arrival order, and needs callers to be `Disciplined`: a
  caller asks for `monitor` only when it sees no operation, and for `cancel` only when it sees the
  operation it wants to cancel. While no operation is on record every `cancel` still in the line
  stands before every `monitor`; while one is on record every `monitor` stands before every
  `cancel`, and each of these cancellations was aimed at that operation. So a cancellation can never
  reach an operation other than the one its caller saw (`Slot.Ordered.cancel_hits_seen`).
-/

namespace Nublado

/-- How a background task ended. -/
inductive TaskOutcome
  | returned
  | raised
  | cancelled
  deriving DecidableEq

/-- Why a task asks for a slot's lock. -/
inductive SlotMethod (ρ ο : Type)
  /-- Start the requested operation. -/
  | monitor (request : ρ)
  /-- Look up the operation to wait for. -/
  | wait
  /-- Collect the operation `op` after its completion event. -/
  | reap (op : ο)
  /-- Cancel the operation on record; `seen` is the operation the caller wants gone, if it named
  one. -/
  | cancel (seen : Option ο)
  deriving DecidableEq

/-- Where a task is suspended inside one of the slot's methods. -/
inductive SlotPc (ρ ο : Type)
  /-- In the lock's queue. -/
  | queued (m : SlotMethod ρ ο)
  /-- The lock has just been acquired. -/
  | critical (m : SlotMethod ρ ο)
  /-- Waiting for the completion event of `o`. -/
  | awaitComplete (o : ο)
  /-- Waiting for the task of `o`, holding the lock. -/
  | awaitTask (m : SlotMethod ρ ο) (o : ο)
  /-- Reporting the failure of the task of `o`, holding the lock. -/
  | report (m : SlotMethod ρ ο) (o : ο)
  deriving DecidableEq

/-- The purpose for which a task is inside the slot's methods. -/
def SlotPc.purpose {ρ ο : Type} : SlotPc ρ ο → SlotMethod ρ ο
  | .queued m | .critical m | .awaitTask m _ | .report m _ => m
  | .awaitComplete o => .reap o

/-- An operation slot together with the tasks inside its methods and the operations it started. -/
structure Slot (τ ρ ο : Type) where
  /-- Protects `operation`. -/
  lock : FifoLock τ (SlotMethod ρ ο)
  /-- The operation on record. -/
  operation : Option ο
  /-- Where each task is inside the slot's methods, if it is. -/
  pc : τ → Option (SlotPc ρ ο)
  /-- The operations started so far. -/
  born : ο → Prop
  /-- How each operation's task ended, once it has. -/
  outcome : ο → Option TaskOutcome
  /-- The completion events that are set. -/
  complete : ο → Bool

namespace Slot

variable {τ ρ ο : Type}

/-- A slot nothing has happened to. -/
structure Fresh (s : Slot τ ρ ο) : Prop where
  lock : s.lock = {}
  operation : s.operation = none
  pc : ∀ t, s.pc t = none
  born : ∀ o, ¬ s.born o
  complete : ∀ o, s.complete o = false

/-- When a task may ask for the lock for the purpose `m`. A task asks for `reap` from inside `wait`,
and for anything else from outside the slot. -/
def Enters (s : Slot τ ρ ο) (t : τ) : SlotMethod ρ ο → Prop
  | .monitor _ => s.pc t = none ∧ s.operation = none
  | .wait => s.pc t = none
  | .reap o => s.pc t = some (.awaitComplete o) ∧ s.complete o = true
  | .cancel none => s.pc t = none
  | .cancel (some o) => s.pc t = none ∧ s.operation = some o

variable [DecidableEq τ] [DecidableEq ο]

/-- Move a task to another point of the slot's methods, or out of them. -/
def at' (s : Slot τ ρ ο) (t : τ) (p : Option (SlotPc ρ ο)) : τ → Option (SlotPc ρ ο) :=
  Function.update s.pc t p

/-- The record after the task that runs `m` has collected `o`: `cancel` always clears it, `reap`
only if it still names `o`. -/
def collected (s : Slot τ ρ ο) (m : SlotMethod ρ ο) (o : ο) : Option ο :=
  match m with
  | .reap _ => if s.operation = some o then none else s.operation
  | _ => none

/-- The completion events after the operation on record has signalled. -/
def signal (s : Slot τ ρ ο) : ο → Bool :=
  match s.operation with
  | some o => Function.update s.complete o true
  | none => s.complete

/-- One step of a task inside the slot's methods, or of an operation's task. -/
inductive Step : Slot τ ρ ο → Slot τ ρ ο → Prop
  /-- The lock is free. -/
  | arrive {s : Slot τ ρ ο} {t : τ} {m : SlotMethod ρ ο} : s.Enters t m → s.lock.free = true →
      Step s { s with lock := s.lock.take t m, pc := s.at' t (some (.critical m)) }
  /-- The lock is taken, or someone is already waiting for it. -/
  | lineUp {s : Slot τ ρ ο} {t : τ} {m : SlotMethod ρ ο} : s.Enters t m → s.lock.free = false →
      Step s { s with lock := s.lock.enqueue t m, pc := s.at' t (some (.queued m)) }
  /-- The head of the queue acquires the lock. -/
  | grant {s : Slot τ ρ ο} {t : τ} {m : SlotMethod ρ ο} {ws : List (τ × SlotMethod ρ ο)} :
      s.lock.holder = none → s.lock.waiters = (t, m) :: ws →
      Step s { s with lock := s.lock.grant t m, pc := s.at' t (some (.critical m)) }
  /-- `monitor` finds an operation, `wait` or `cancel` finds none, or `reap` finds a cancelled task:
  the method ends and the record stays as it is. -/
  | leave {s : Slot τ ρ ο} {t : τ} {m : SlotMethod ρ ο} {p : SlotPc ρ ο} :
      s.pc t = some p → p = .critical m ∨ (∃ o, p = .awaitTask m o) →
      Step s { s with lock := s.lock.release, pc := s.at' t none }
  /-- `monitor` starts an operation. -/
  | start {s : Slot τ ρ ο} {t : τ} {r : ρ} {o : ο} : s.pc t = some (.critical (.monitor r)) →
      s.operation = none → ¬ s.born o → s.outcome o = none → s.complete o = false →
      Step s { s with
        lock := s.lock.release, pc := s.at' t none, operation := some o
        born := fun o' ↦ s.born o' ∨ o' = o }
  /-- `wait` finds an operation and waits for its completion event. -/
  | join {s : Slot τ ρ ο} {t : τ} {o : ο} : s.pc t = some (.critical .wait) →
      s.operation = some o →
      Step s { s with lock := s.lock.release, pc := s.at' t (some (.awaitComplete o)) }
  /-- `reap` turns to the task it waits for. -/
  | collect {s : Slot τ ρ ο} {t : τ} {o : ο} : s.pc t = some (.critical (.reap o)) →
      Step s { s with pc := s.at' t (some (.awaitTask (.reap o) o)) }
  /-- `cancel` turns to the task it has cancelled. -/
  | abort {s : Slot τ ρ ο} {t : τ} {o : ο} {seen : Option ο} :
      s.pc t = some (.critical (.cancel seen)) → s.operation = some o →
      Step s { s with pc := s.at' t (some (.awaitTask (.cancel seen) o)) }
  /-- The awaited task has failed, which is reported before the record is cleared. -/
  | failed {s : Slot τ ρ ο} {t : τ} {m : SlotMethod ρ ο} {o : ο} :
      s.pc t = some (.awaitTask m o) → (s.outcome o).isSome →
      Step s { s with pc := s.at' t (some (.report m o)) }
  /-- The awaited task has ended: the record is cleared and the method returns. -/
  | finish {s : Slot τ ρ ο} {t : τ} {m : SlotMethod ρ ο} {o : ο} {p : SlotPc ρ ο} :
      s.pc t = some p → p = .awaitTask m o ∨ p = .report m o → (s.outcome o).isSome →
      Step s { s with
        lock := s.lock.release, pc := s.at' t none, operation := s.collected m o }
  /-- An operation's task ends, with or without signalling completion. -/
  | ended {s : Slot τ ρ ο} {o : ο} {r : TaskOutcome} {c : ο → Bool} : s.born o →
      s.outcome o = none → c = s.complete ∨ c = s.signal →
      Step s { s with outcome := Function.update s.outcome o (some r), complete := c }

/-! ### Safety: the lock protects the record -/

section Definitions

omit [DecidableEq τ] [DecidableEq ο]

/-- The task is in the critical section for the purpose `m`. -/
def InSection (m : SlotMethod ρ ο) (p : Option (SlotPc ρ ο)) : Prop :=
  p = some (.critical m) ∨ ∃ o, p = some (.awaitTask m o) ∨ p = some (.report m o)

/-- **What the lock guarantees**, whatever the callers do. -/
structure Safe (s : Slot τ ρ ο) : Prop where
  /-- The lock's holder is the one task in the critical section. -/
  holder : ∀ t m, s.lock.holder = some (t, m) ↔ InSection m (s.pc t)
  /-- The lock's queue is the set of queued tasks. -/
  waiters : ∀ t m, (t, m) ∈ s.lock.waiters ↔ s.pc t = some (.queued m)
  /-- No task is queued twice. -/
  nodup : (s.lock.waiters.map Prod.fst).Nodup
  /-- The operation on record has been started. -/
  recorded : ∀ o, s.operation = some o → s.born o
  /-- **An operation that has not ended is the one on record.** -/
  unfinished : ∀ o, s.born o → s.outcome o = none → s.operation = some o
  /-- Completion is signalled by operations that have ended. -/
  signalled : ∀ o, s.complete o = true → s.born o ∧ (s.outcome o).isSome
  /-- An operation someone waits for has been started. -/
  joined : ∀ t o, s.pc t = some (.awaitComplete o) → s.born o
  /-- An operation is collected after its completion event. -/
  reaps : ∀ o, .reap o ∈ s.lock.line → s.complete o = true
  /-- A task is awaited by the method that looked it up: by `reap`, which may be late, or by
  `cancel`, which found it on record and still holds the lock. -/
  awaits : ∀ t m o, s.pc t = some (.awaitTask m o) ∨ s.pc t = some (.report m o) →
    m = .reap o ∨ (∃ seen, m = .cancel seen) ∧ s.operation = some o
  /-- Only the failure of a task that has ended is reported. -/
  reports : ∀ t m o, s.pc t = some (.report m o) → (s.outcome o).isSome

/-- **At most one operation has not ended.** -/
theorem Safe.unfinished_unique {s : Slot τ ρ ο} (h : s.Safe) {o o' : ο} (hb : s.born o)
    (hb' : s.born o') (ho : s.outcome o = none) (ho' : s.outcome o' = none) : o = o' := by
  have h₁ := h.unfinished o hb ho
  have h₂ := h.unfinished o' hb' ho'
  exact Option.some.inj (h₁.symm.trans h₂)

theorem Fresh.safe {s : Slot τ ρ ο} (h : s.Fresh) : s.Safe where
  holder t m := by simp [h.lock, h.pc t, InSection]
  waiters t m := by simp [h.lock, h.pc t]
  nodup := by simp [h.lock]
  recorded o ho := by simp [h.operation] at ho
  unfinished o hb := absurd hb (h.born o)
  signalled o hc := by simp [h.complete o] at hc
  joined t o ht := by simp [h.pc t] at ht
  reaps o ho := by simp [h.lock, FifoLock.line] at ho
  awaits t m o ht := by simp [h.pc t] at ht
  reports t m o ht := by simp [h.pc t] at ht

variable {s : Slot τ ρ ο} {t : τ} {m : SlotMethod ρ ο} {o : ο}

/-- A task that asks for the lock is neither queued nor in the critical section. -/
theorem Enters.pc_eq (h : s.Enters t m) :
    s.pc t = none ∨ ∃ o, s.pc t = some (.awaitComplete o) := by
  cases m with
  | monitor r => exact Or.inl h.1
  | wait => exact Or.inl h
  | reap o => exact Or.inr ⟨o, h.1⟩
  | cancel seen =>
    cases seen with
    | none => exact Or.inl h
    | some o => exact Or.inl h.1

/-- The holder, seen from the task. -/
theorem Safe.holder_of_critical (h : s.Safe) (ht : s.pc t = some (.critical m)) :
    s.lock.holder = some (t, m) :=
  (h.holder t m).2 (Or.inl ht)

theorem Safe.holder_of_awaitTask (h : s.Safe)
    (ht : s.pc t = some (.awaitTask m o) ∨ s.pc t = some (.report m o)) :
    s.lock.holder = some (t, m) :=
  (h.holder t m).2 (Or.inr ⟨o, ht⟩)

end Definitions

section Preservation

omit [DecidableEq ο]

variable {s : Slot τ ρ ο} {t : τ} {m : SlotMethod ρ ο} {o : ο}

theorem Safe.arrive (h : s.Safe) (he : s.Enters t m) (hf : s.lock.free = true) :
    Safe { s with lock := s.lock.take t m, pc := s.at' t (some (.critical m)) } := by
  obtain ⟨hh, hw⟩ := FifoLock.free_iff.1 hf
  have hpc := he.pc_eq
  have hholder := h.holder
  have hwaiters := h.waiters
  refine { h with
    holder := ?_, waiters := ?_, nodup := ?_, joined := ?_, reaps := ?_, awaits := ?_
    reports := ?_ }
  · simp only [InSection, at', Function.update_apply] at *
    grind [FifoLock.holder_take]
  · simp only [at', Function.update_apply] at *
    grind [FifoLock.waiters_take]
  · simp [hw]
  · have hjoined := h.joined
    simp only [at', Function.update_apply]
    grind
  · intro o' ho'
    rw [FifoLock.line_take_of_free hf, List.mem_singleton] at ho'
    subst ho'
    exact he.2
  · have hawaits := h.awaits
    simp only [at', Function.update_apply]
    grind
  · have hreports := h.reports
    simp only [at', Function.update_apply]
    grind

theorem Safe.lineUp (h : s.Safe) (he : s.Enters t m) :
    Safe { s with lock := s.lock.enqueue t m, pc := s.at' t (some (.queued m)) } := by
  have hpc := he.pc_eq
  have hholder := h.holder
  have hwaiters := h.waiters
  refine { h with
    holder := ?_, waiters := ?_, nodup := ?_, joined := ?_, reaps := ?_, awaits := ?_
    reports := ?_ }
  · simp only [InSection, at', Function.update_apply] at *
    grind [FifoLock.holder_enqueue]
  · simp only [at', Function.update_apply] at *
    grind [FifoLock.waiters_enqueue]
  · have hnodup := h.nodup
    simp only [FifoLock.waiters_enqueue, List.map_append, List.map_cons, List.map_nil]
    refine hnodup.append (List.nodup_singleton t) ?_
    simp only [List.disjoint_singleton, List.mem_map, Prod.exists, exists_and_right,
      exists_eq_right, not_exists]
    intro m' hm'
    have := (hwaiters t m').1 hm'
    grind
  · have hjoined := h.joined
    simp only [at', Function.update_apply]
    grind
  · intro o' ho'
    rw [FifoLock.line_enqueue, List.mem_append, List.mem_singleton] at ho'
    rcases ho' with ho' | rfl
    · exact h.reaps o' ho'
    · exact he.2
  · have hawaits := h.awaits
    simp only [at', Function.update_apply]
    grind
  · have hreports := h.reports
    simp only [at', Function.update_apply]
    grind

theorem Safe.grant (h : s.Safe) {ws : List (τ × SlotMethod ρ ο)} (hh : s.lock.holder = none)
    (hw : s.lock.waiters = (t, m) :: ws) :
    Safe { s with lock := s.lock.grant t m, pc := s.at' t (some (.critical m)) } := by
  have hholder := h.holder
  have hwaiters := h.waiters
  have hnodup := h.nodup
  have hqueued : s.pc t = some (.queued m) := (hwaiters t m).1 (by simp [hw])
  -- the task has left the queue, because it was queued once
  have hrest : ∀ m', (t, m') ∉ ws := by
    rw [hw, List.map_cons, List.nodup_cons] at hnodup
    intro m' hm'
    exact hnodup.1 (List.mem_map.2 ⟨(t, m'), hm', rfl⟩)
  refine { h with
    holder := ?_, waiters := ?_, nodup := ?_, joined := ?_, reaps := ?_, awaits := ?_
    reports := ?_ }
  · simp only [InSection, at', Function.update_apply] at *
    grind [FifoLock.holder_grant]
  · simp only [FifoLock.waiters_grant, hw, List.tail_cons, at', Function.update_apply] at *
    grind
  · rw [FifoLock.waiters_grant, hw, List.tail_cons]
    rw [hw, List.map_cons] at hnodup
    exact (List.nodup_cons.1 hnodup).2
  · have hjoined := h.joined
    simp only [at', Function.update_apply]
    grind
  · rw [FifoLock.line_grant hh hw]
    exact h.reaps
  · have hawaits := h.awaits
    simp only [at', Function.update_apply]
    grind
  · have hreports := h.reports
    simp only [at', Function.update_apply]
    grind

/-- The holder leaves the critical section, for any point outside it. -/
theorem Safe.release (h : s.Safe) (ht : s.lock.holder = some (t, m)) {p : Option (SlotPc ρ ο)}
    (hp : p = none ∨ ∃ o, p = some (.awaitComplete o) ∧ s.born o) :
    Safe { s with lock := s.lock.release, pc := s.at' t p } := by
  have hholder := h.holder
  have hwaiters := h.waiters
  refine { h with
    holder := ?_, waiters := ?_, nodup := ?_, joined := ?_, reaps := ?_, awaits := ?_
    reports := ?_ }
  · simp only [InSection, at', Function.update_apply] at *
    grind [FifoLock.holder_release]
  · simp only [InSection, at', Function.update_apply, FifoLock.waiters_release] at *
    grind
  · exact h.nodup
  · have hjoined := h.joined
    simp only [at', Function.update_apply]
    grind
  · intro o' ho'
    refine h.reaps o' ?_
    rw [FifoLock.line_eq_cons_release ht]
    exact List.mem_cons_of_mem _ ho'
  · have hawaits := h.awaits
    simp only [at', Function.update_apply]
    grind
  · have hreports := h.reports
    simp only [at', Function.update_apply]
    grind

/-- The holder moves on inside the critical section. -/
theorem Safe.inside (h : s.Safe) (ht : s.lock.holder = some (t, m)) {p : SlotPc ρ ο}
    (hp : p = .awaitTask m o ∨ p = .report m o ∧ (s.outcome o).isSome)
    (hm : m = .reap o ∨ (∃ seen, m = .cancel seen) ∧ s.operation = some o) :
    Safe { s with pc := s.at' t (some p) } := by
  have hholder := h.holder
  have hwaiters := h.waiters
  refine { h with holder := ?_, waiters := ?_, joined := ?_, awaits := ?_, reports := ?_ }
  · simp only [InSection, at', Function.update_apply] at *
    grind
  · simp only [InSection, at', Function.update_apply] at *
    grind
  · have hjoined := h.joined
    simp only [at', Function.update_apply]
    grind
  · have hawaits := h.awaits
    simp only [at', Function.update_apply]
    grind
  · have hreports := h.reports
    simp only [at', Function.update_apply]
    grind

omit [DecidableEq τ] in
/-- The record changes while the holder leaves the critical section. -/
theorem Safe.setOperation (h : s.Safe) (hfree : s.lock.holder = none) {r : Option ο}
    {born : ο → Prop} (hmono : ∀ o, s.born o → born o) (hrec : ∀ o, r = some o → born o)
    (hunf : ∀ o, born o → s.outcome o = none → r = some o) :
    Safe { s with operation := r, born := born } := by
  have hholder := h.holder
  refine { h with
    recorded := hrec, unfinished := hunf, signalled := ?_, joined := ?_, awaits := ?_ }
  · intro o ho
    exact ⟨hmono o (h.signalled o ho).1, (h.signalled o ho).2⟩
  · intro t o ht
    exact hmono o (h.joined t o ht)
  · intro t m o ht
    have := h.holder_of_awaitTask ht
    simp [hfree] at this

end Preservation

/-- **Safety is inductive.** -/
theorem Safe.step {s s' : Slot τ ρ ο} (h : s.Safe) (hs : Step s s') : s'.Safe := by
  cases hs with
  | arrive he hf => exact h.arrive he hf
  | lineUp he _ => exact h.lineUp he
  | grant hh hw => exact h.grant hh hw
  | @leave t m p ht hp =>
    have hholder : s.lock.holder = some (t, m) := by
      rcases hp with rfl | ⟨o, rfl⟩
      · exact h.holder_of_critical ht
      · exact h.holder_of_awaitTask (Or.inl ht)
    exact h.release hholder (Or.inl rfl)
  | @start t r o ht hnone hborn hout hcomplete =>
    have hleft := h.release (h.holder_of_critical ht) (p := none) (Or.inl rfl)
    refine hleft.setOperation rfl (fun _ ho ↦ Or.inl ho) ?_ ?_
    · rintro o' ⟨⟩
      exact Or.inr rfl
    · rintro o' (ho' | rfl) hunf
      · have := h.unfinished o' ho' hunf
        simp [hnone] at this
      · rfl
  | @join t o ht ho =>
    exact h.release (h.holder_of_critical ht) (Or.inr ⟨o, rfl, h.recorded o ho⟩)
  | @collect t o ht => exact h.inside (h.holder_of_critical ht) (Or.inl rfl) (Or.inl rfl)
  | @abort t o seen ht ho =>
    exact h.inside (h.holder_of_critical ht) (Or.inl rfl) (Or.inr ⟨⟨seen, rfl⟩, ho⟩)
  | @failed t m o ht hout =>
    exact h.inside (h.holder_of_awaitTask (Or.inl ht)) (Or.inr ⟨rfl, hout⟩)
      (h.awaits t m o (Or.inl ht))
  | @finish t m o p ht hp hout =>
    have hat : s.pc t = some (.awaitTask m o) ∨ s.pc t = some (.report m o) := by
      rcases hp with rfl | rfl
      · exact Or.inl ht
      · exact Or.inr ht
    have hleft := h.release (h.holder_of_awaitTask hat) (p := none) (Or.inl rfl)
    -- whatever is on record afterwards was on record before, and `o` has ended
    have hclear : ∀ o', s.collected m o = some o' ↔ s.operation = some o' ∧ o' ≠ o := by
      intro o'
      rcases h.awaits t m o hat with rfl | ⟨⟨seen, rfl⟩, hrec⟩
      · grind [collected]
      · grind [collected]
    refine hleft.setOperation rfl (fun _ ho ↦ ho) ?_ ?_
    · intro o' ho'
      exact h.recorded o' ((hclear o').1 ho').1
    · intro o' hb hunf
      refine (hclear o').2 ⟨h.unfinished o' hb hunf, ?_⟩
      rintro rfl
      simp only [Option.isSome_iff_exists] at hout
      grind
  | @ended o r c hborn hout hc =>
    have hrec : s.operation = some o := h.unfinished o hborn hout
    have hcomplete : ∀ o', c o' = true → s.complete o' = true ∨ o' = o := by
      rcases hc with rfl | rfl
      · exact fun o' ho' ↦ Or.inl ho'
      · intro o' ho'
        simp only [signal, hrec, Function.update_apply] at ho'
        grind
    refine { h with unfinished := ?_, signalled := ?_, reaps := ?_, reports := ?_ }
    · intro o' hb hunf
      exact h.unfinished o' hb (by simp only [Function.update_apply] at hunf; grind)
    · intro o' ho'
      simp only [Function.update_apply]
      rcases hcomplete o' ho' with hc' | rfl
      · have := h.signalled o' hc'
        grind
      · exact ⟨hborn, by simp⟩
    · intro o' ho'
      rcases hc with rfl | rfl
      · exact h.reaps o' ho'
      · simp only [signal, hrec, Function.update_apply]
        have := h.reaps o' ho'
        grind
    · intro t m o' ht
      have := h.reports t m o' ht
      simp only [Function.update_apply]
      grind

/-- The task that a method waits for belongs to an operation that was started. -/
theorem Safe.born_of_awaits {s : Slot τ ρ ο} (h : s.Safe) {t : τ} {m : SlotMethod ρ ο} {o : ο}
    (ht : s.pc t = some (.awaitTask m o) ∨ s.pc t = some (.report m o)) : s.born o := by
  rcases h.awaits t m o ht with rfl | ⟨-, ho⟩
  · have hline := FifoLock.mem_line_of_holder (h.holder_of_awaitTask ht)
    exact (h.signalled o (h.reaps o hline)).1
  · exact h.recorded o ho

/-- **An operation that has ended has settled**: neither how it ended nor whether it has signalled its
completion changes any more. -/
theorem Safe.settled {s s' : Slot τ ρ ο} (h : s.Safe) (hs : Step s s') {o : ο} {r : TaskOutcome}
    (ho : s.outcome o = some r) : s'.outcome o = some r ∧ s'.complete o = s.complete o := by
  cases hs with
  | @ended o' r' c hborn hout hc =>
    have hne : o ≠ o' := by
      rintro rfl
      rw [hout] at ho
      cases ho
    have hrec := h.unfinished o' hborn hout
    refine ⟨(Function.update_of_ne hne _ _).trans ho, ?_⟩
    rcases hc with rfl | rfl
    · rfl
    · simp only [signal, hrec, Function.update_of_ne hne]
  | _ => exact ⟨ho, rfl⟩

/-! ### Order: cancellations hit the operation they were aimed at -/

section Order

omit [DecidableEq τ] [DecidableEq ο]

/-- The order in which two purposes may stand in the line, given what is on record: before an
operation starts, cancellations of older operations precede the requests to start one; while it
runs, what is left of those requests precedes everything that can clear it. -/
def Before (record : Option ο) (a b : SlotMethod ρ ο) : Prop :=
  match record with
  | none => ∀ r seen, ¬ (a = .monitor r ∧ b = .cancel seen)
  | some o => ∀ r, b = .monitor r → (∀ seen, a ≠ .cancel seen) ∧ a ≠ .reap o

/-- **What arrival order guarantees**, provided every cancellation names its target. -/
structure Ordered (s : Slot τ ρ ο) : Prop where
  /-- The line is in the order described by `Before`. -/
  order : s.lock.line.Pairwise (Before s.operation)
  /-- Every cancellation in the line was aimed at the operation on record. -/
  aimed : ∀ o o', .cancel (some o') ∈ s.lock.line → s.operation = some o → o' = o

theorem Fresh.ordered {s : Slot τ ρ ο} (h : s.Fresh) : s.Ordered where
  order := by simp [h.lock, FifoLock.line]
  aimed o o' ho := by simp [h.lock, FifoLock.line] at ho

variable {s : Slot τ ρ ο} {t : τ} {m : SlotMethod ρ ο} {o : ο}

/-- A newcomer stands in order behind everyone already in the line. -/
theorem Enters.before (he : s.Enters t m) (hnamed : m ≠ .cancel none) (a : SlotMethod ρ ο) :
    Before s.operation a m := by
  cases m with
  | monitor r => simp [Before, he.2]
  | wait | reap => cases s.operation <;> simp [Before]
  | cancel seen =>
    cases seen with
    | none => exact absurd rfl hnamed
    | some o => simp [Before, he.2]

/-- The line after an arrival. -/
theorem Ordered.push (h : s.Ordered) (he : s.Enters t m) (hnamed : m ≠ .cancel none)
    {lock : FifoLock τ (SlotMethod ρ ο)} (hline : lock.line = s.lock.line ++ [m])
    {pc : τ → Option (SlotPc ρ ο)} : Ordered { s with lock := lock, pc := pc } where
  order := by
    show lock.line.Pairwise (Before s.operation)
    rw [hline, List.pairwise_append]
    refine ⟨h.order, List.pairwise_singleton _ _, ?_⟩
    intro a _ b hb
    obtain rfl := List.mem_singleton.1 hb
    exact he.before hnamed a
  aimed o o' ho hrec := by
    replace ho : .cancel (some o') ∈ lock.line := ho
    rw [hline, List.mem_append, List.mem_singleton] at ho
    rcases ho with ho | rfl
    · exact h.aimed o o' ho hrec
    · exact Option.some.inj (he.2.symm.trans hrec)

/-- The head of the line leaves and the record stays. -/
theorem Ordered.pop (h : s.Ordered) {lock : FifoLock τ (SlotMethod ρ ο)}
    (hline : s.lock.line = m :: lock.line) {pc : τ → Option (SlotPc ρ ο)} :
    Ordered { s with lock := lock, pc := pc } where
  order := (hline ▸ h.order).tail
  aimed o o' ho := h.aimed o o' (hline ▸ List.mem_cons_of_mem _ ho)

/-- The head of the line clears the record: nobody behind it is waiting to start an operation. -/
theorem Ordered.clear (h : s.Ordered) (ho : s.operation = some o)
    (hm : m = .reap o ∨ ∃ seen, m = .cancel seen) {lock : FifoLock τ (SlotMethod ρ ο)}
    (hline : s.lock.line = m :: lock.line) {pc : τ → Option (SlotPc ρ ο)} :
    Ordered { s with lock := lock, pc := pc, operation := none } where
  order := by
    have horder := h.order
    rw [hline, ho, List.pairwise_cons] at horder
    refine List.pairwise_of_forall_mem_list ?_
    rintro a ha b - r seen ⟨rfl, -⟩
    obtain ⟨hcancel, hreap⟩ := horder.1 _ ha r rfl
    rcases hm with rfl | ⟨seen', rfl⟩
    · exact hreap rfl
    · exact hcancel seen' rfl
  aimed o o' _ hrec := by simp at hrec

/-- The head of the line puts an operation on record: no cancellation is left behind it. -/
theorem Ordered.record (h : s.Ordered) (hnone : s.operation = none) {r : ρ}
    (hfresh : .reap o ∉ s.lock.line) {lock : FifoLock τ (SlotMethod ρ ο)}
    (hline : s.lock.line = .monitor r :: lock.line) {pc : τ → Option (SlotPc ρ ο)}
    {born : ο → Prop} :
    Ordered { s with lock := lock, pc := pc, operation := some o, born := born } := by
  have horder := h.order
  rw [hline, hnone, List.pairwise_cons] at horder
  have hcancel : ∀ seen, .cancel seen ∉ lock.line := fun seen hmem ↦
    horder.1 _ hmem r seen ⟨rfl, rfl⟩
  refine ⟨List.pairwise_of_forall_mem_list ?_, ?_⟩
  · rintro a ha b - r' rfl
    refine ⟨?_, ?_⟩
    · rintro seen rfl
      exact hcancel seen ha
    · rintro rfl
      exact hfresh (hline ▸ List.mem_cons_of_mem _ ha)
  · intro o₁ o' ho'
    exact absurd ho' (hcancel _)

end Order

/-- **Arrival order is inductive** along steps that let no unnamed cancellation into the line. -/
theorem Ordered.step {s s' : Slot τ ρ ο} (h : s.Ordered) (hsafe : s.Safe) (hs : Step s s')
    (hnamed : .cancel none ∉ s'.lock.line) : s'.Ordered := by
  cases hs with
  | @arrive t m he hf =>
    have hline : (s.lock.take t m).line = s.lock.line ++ [m] := by
      obtain ⟨hh, hw⟩ := FifoLock.free_iff.1 hf
      rw [FifoLock.line_take_of_free hf]
      simp [FifoLock.line, hh, hw]
    refine h.push he ?_ hline
    rintro rfl
    exact hnamed (hline ▸ by simp)
  | @lineUp t m he _ =>
    refine h.push he ?_ (FifoLock.line_enqueue _ _ _)
    rintro rfl
    exact hnamed (by simp [FifoLock.line_enqueue])
  | grant hh hw =>
    have hline := FifoLock.line_grant hh hw
    exact ⟨hline ▸ h.order, fun o o' ho ↦ h.aimed o o' (hline ▸ ho)⟩
  | @leave t m p ht hp =>
    have hholder : s.lock.holder = some (t, m) := by
      rcases hp with rfl | ⟨o, rfl⟩
      · exact hsafe.holder_of_critical ht
      · exact hsafe.holder_of_awaitTask (Or.inl ht)
    exact h.pop (FifoLock.line_eq_cons_release hholder)
  | @start t r o ht hnone _ _ hcomplete =>
    have hfresh : .reap o ∉ s.lock.line := by
      intro hmem
      have := hsafe.reaps o hmem
      simp [hcomplete] at this
    exact h.record hnone hfresh (FifoLock.line_eq_cons_release (hsafe.holder_of_critical ht))
  | @join t o ht _ => exact h.pop (FifoLock.line_eq_cons_release (hsafe.holder_of_critical ht))
  | collect | abort | failed => exact ⟨h.order, h.aimed⟩
  | @finish t m o p ht hp _ =>
    have hat : s.pc t = some (.awaitTask m o) ∨ s.pc t = some (.report m o) := by
      rcases hp with rfl | rfl
      · exact Or.inl ht
      · exact Or.inr ht
    have hline := FifoLock.line_eq_cons_release (hsafe.holder_of_awaitTask hat)
    rcases hsafe.awaits t m o hat with rfl | ⟨⟨seen, rfl⟩, hrec⟩
    · by_cases hrec : s.operation = some o
      · rw [show s.collected (.reap o) o = none by simp [collected, hrec]]
        exact h.clear hrec (Or.inl rfl) hline
      · rw [show s.collected (.reap o) o = s.operation by simp [collected, hrec]]
        exact h.pop hline
    · exact h.clear hrec (Or.inr ⟨seen, rfl⟩) hline
  | ended => exact ⟨h.order, h.aimed⟩

section Consequences

omit [DecidableEq τ] [DecidableEq ο]

/-- **A cancellation hits the operation its caller saw.** -/
theorem Ordered.cancel_hits_seen {s : Slot τ ρ ο} (h : s.Ordered) (hsafe : s.Safe) {t : τ}
    {o o' : ο} (ht : s.pc t = some (.critical (.cancel (some o')))) (ho : s.operation = some o) :
    o' = o :=
  h.aimed o o' (FifoLock.mem_line_of_holder (hsafe.holder_of_critical ht)) ho

/-- **Nobody waits to start an operation behind a task that is about to clear the record.** -/
theorem Ordered.no_monitor_behind {s : Slot τ ρ ο} (h : s.Ordered) {t t' : τ}
    {m : SlotMethod ρ ο} {o : ο} {r : ρ} (hholder : s.lock.holder = some (t, m))
    (ho : s.operation = some o) (hm : m = .reap o ∨ ∃ seen, m = .cancel seen) :
    (t', .monitor r) ∉ s.lock.waiters := by
  intro hmem
  have horder := h.order
  rw [FifoLock.line_eq_cons_release hholder, ho, List.pairwise_cons] at horder
  obtain ⟨hcancel, hreap⟩ := horder.1 _ (FifoLock.mem_line_of_mem_waiters (l := s.lock.release)
    (t := t') hmem) r rfl
  rcases hm with rfl | ⟨seen, rfl⟩
  · exact hreap rfl
  · exact hcancel seen rfl

end Consequences

/-! ### Shields: in line behind nobody who starts an operation -/

section Shield

omit [DecidableEq τ] [DecidableEq ο]

/-- A task in line that will find an operation that has ended, or none: if an operation is on record,
it has ended, and if none is, nobody stands before the task in line to start one. -/
structure Shielded (s : Slot τ ρ ο) (t : τ) : Prop where
  ended : ∀ o, s.operation = some o → (s.outcome o).isSome
  unopposed : s.operation = none → (s.lock.holder.toList ++ s.lock.waiters).Pairwise
    fun a b ↦ b.1 = t → ∀ r, a.2 ≠ .monitor r

/-- The task is in line to look up an operation, or about to do so. -/
def Looks (s : Slot τ ρ ο) (t : τ) : Prop :=
  s.pc t = some (.queued .wait) ∨ s.pc t = some (.critical .wait)

/-- The holder leaves the line and the record stays. -/
theorem Shielded.release {s s' : Slot τ ρ ο} {t u : τ} {m : SlotMethod ρ ο} (h : s.Shielded t)
    (hholder : s.lock.holder = some (u, m)) (hlock : s'.lock = s.lock.release)
    (hrecord : s'.operation = s.operation) (houtcome : s'.outcome = s.outcome) : s'.Shielded t where
  ended o ho := houtcome ▸ h.ended o (hrecord ▸ ho)
  unopposed hnone := by
    have hline := h.unopposed (hrecord ▸ hnone)
    rw [hholder] at hline
    rw [hlock]
    exact hline.tail

end Shield

/-- **A shield lasts** for as long as the task is in line. -/
theorem Shielded.step {s s' : Slot τ ρ ο} {t : τ} (h : s.Shielded t) (hsafe : s.Safe)
    (hordered : s.Ordered) (hs : Step s s') (hlooks : s.Looks t) (hlooks' : s'.Looks t) :
    s'.Shielded t := by
  have hleft : ∀ {u : τ}, (s.at' u none) t = some (.queued .wait) ∨
      (s.at' u none) t = some (.critical .wait) → t ≠ u := by
    rintro u hu rfl
    simp [at'] at hu
  cases hs with
  | @arrive u m he hf =>
    obtain ⟨hh, hw⟩ := FifoLock.free_iff.1 hf
    exact ⟨h.ended, fun _ ↦ by simp [hw]⟩
  | @lineUp u m he hf =>
    have hne : u ≠ t := by
      rintro rfl
      rcases hlooks with hpc | hpc <;> rcases he.pc_eq with hpc' | ⟨o, hpc'⟩ <;>
        simp [hpc] at hpc'
    refine ⟨h.ended, fun hnone ↦ ?_⟩
    have hline : s.lock.holder.toList ++ (s.lock.enqueue u m).waiters =
        (s.lock.holder.toList ++ s.lock.waiters) ++ [(u, m)] := by simp
    show (s.lock.holder.toList ++ (s.lock.enqueue u m).waiters).Pairwise _
    rw [hline, List.pairwise_append]
    refine ⟨h.unopposed hnone, List.pairwise_singleton _ _, ?_⟩
    rintro a - b hb rfl
    exact absurd (congrArg Prod.fst (List.mem_singleton.1 hb)).symm hne
  | @grant u m ws hh hw =>
    refine ⟨h.ended, fun hnone ↦ ?_⟩
    have hline := h.unopposed hnone
    rw [hh, hw] at hline
    show ((s.lock.grant u m).holder.toList ++ (s.lock.grant u m).waiters).Pairwise _
    simpa [hw] using hline
  | @leave u m p hu hp =>
    have hholder : s.lock.holder = some (u, m) := by
      rcases hp with rfl | ⟨o, rfl⟩
      · exact hsafe.holder_of_critical hu
      · exact hsafe.holder_of_awaitTask (Or.inl hu)
    exact h.release hholder rfl rfl rfl
  | @start u r o hu hnone hborn hout hcomplete =>
    -- the task that starts an operation stands before every other task in line
    have hne := hleft hlooks'
    have hholder := hsafe.holder_of_critical hu
    have hqueued : s.pc t = some (.queued .wait) := by
      refine hlooks.resolve_right fun hpc ↦ hne ?_
      have := hsafe.holder_of_critical hpc
      rw [hholder] at this
      exact (congrArg Prod.fst (Option.some.inj this)).symm
    have hline := h.unopposed hnone
    rw [hholder, Option.toList_some, List.singleton_append, List.pairwise_cons] at hline
    exact absurd rfl (hline.1 _ ((hsafe.waiters t .wait).2 hqueued) rfl r)
  | @join u o hu ho =>
    exact h.release (hsafe.holder_of_critical hu) rfl rfl rfl
  | collect | abort | failed => exact ⟨h.ended, h.unopposed⟩
  | @finish u m o p hu hp hout =>
    have hat : s.pc u = some (.awaitTask m o) ∨ s.pc u = some (.report m o) := by
      rcases hp with rfl | rfl
      · exact Or.inl hu
      · exact Or.inr hu
    have hholder := hsafe.holder_of_awaitTask hat
    by_cases hrecord : s.collected m o = s.operation
    · exact h.release hholder rfl hrecord rfl
    · -- the record is cleared, and nobody waits behind to start an operation
      have hcleared : s.operation = some o ∧ s.collected m o = none := by
        rcases hsafe.awaits u m o hat with rfl | ⟨⟨seen, rfl⟩, ho⟩
        · by_cases ho : s.operation = some o
          · exact ⟨ho, by simp [collected, ho]⟩
          · exact absurd (by simp [collected, ho]) hrecord
        · exact ⟨ho, rfl⟩
      have hclears : m = .reap o ∨ ∃ seen, m = .cancel seen :=
        (hsafe.awaits u m o hat).imp_right And.left
      refine ⟨fun o' ho' ↦ ?_, fun _ ↦ List.pairwise_of_forall_mem_list ?_⟩
      · cases hcleared.2.symm.trans ho'
      · rintro ⟨v, m'⟩ hv b - - r rfl
        exact hordered.no_monitor_behind hholder hcleared.1 hclears hv
  | @ended o r c hborn hout hc =>
    refine ⟨fun o' ho' ↦ ?_, h.unopposed⟩
    have hended := h.ended o' ho'
    simp only [Function.update_apply]
    split
    · rfl
    · exact hended

end Slot

end Nublado
