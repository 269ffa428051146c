import Nublado.Lab.Manager.Control

/-!
# Every monitor is an operation slot

`ManagerState.slot s e` is what the manager looks like from the monitor of record `e`: its lock, the
operation it has on record, the calls inside its methods, and the operations it has started. The
refinement theorem `slot_step` says that every step of the manager either leaves a monitor alone or
is one of the steps of an operation slot. What the slot's lock guarantees is therefore true of every
monitor in every run (`Run.sound`).

The converse direction of the control flow is needed as well: a slot's step asks for the checks that
the caller made before it asked for the lock, which is what `Control` provides. Both invariants are
carried along together, as `Sound`.
-/

namespace Nublado.Lab

/-- Where a call is inside the methods of monitor `e`. -/
def CallPc.inSlot (e : ℕ) : CallPc → Option (SlotPc Request ℕ)
  | .method e' (.inside p) _ => if e' = e then some p else none
  | _ => none

namespace ManagerState

/-- The calls inside the methods of monitor `e`. -/
def slotPcs (calls : Heap CallTask) (e : ℕ) : ℕ → Option (SlotPc Request ℕ) :=
  fun t ↦ if t < calls.size then (calls t).pc.inSlot e else none

/-- **The monitor of record `e`, as an operation slot.** -/
def slot (s : ManagerState) (e : ℕ) : Slot ℕ Request ℕ where
  lock := (s.monitors e).lock
  operation := (s.monitors e).operation
  pc := slotPcs s.calls e
  born o := o < s.ops.size ∧ (s.ops o).entry = e
  outcome o := if o < s.ops.size ∧ (s.ops o).entry = e then (s.ops o).outcome else none
  complete o := decide (o < s.ops.size ∧ (s.ops o).entry = e) && (s.ops o).complete

@[simp] theorem lock_slot (s : ManagerState) (e : ℕ) : (s.slot e).lock = (s.monitors e).lock := rfl

@[simp] theorem operation_slot (s : ManagerState) (e : ℕ) :
    (s.slot e).operation = (s.monitors e).operation := rfl

variable {config : LabConfig} {s s' : ManagerState} {l : Label} {t e : ℕ}

theorem slot_fresh (e : ℕ) : (initial.slot e).Fresh where
  lock := rfl
  operation := rfl
  pc _ := rfl
  born o h := absurd h.1 (Nat.not_lt_zero o)
  complete o := by simp [slot, initial]

theorem slotPcs_of_lt {calls : Heap CallTask} (h : t < calls.size) :
    slotPcs calls e t = (calls t).pc.inSlot e :=
  if_pos h

theorem slotPcs_moved {calls : Heap CallTask} (h : t < calls.size) (pc : CallPc) :
    slotPcs (moved calls t pc) e = Function.update (slotPcs calls e) t (pc.inSlot e) := by
  funext u
  rw [Function.update_apply]
  simp only [slotPcs, size_moved, pc_moved]
  split <;> split <;> simp_all

/-- A move between points outside the monitor's methods changes nothing for the monitor. -/
theorem slotPcs_moved_of_eq {calls : Heap CallTask} (h : t < calls.size) {pc : CallPc}
    (hpc : pc.inSlot e = (calls t).pc.inSlot e) :
    slotPcs (moved calls t pc) e = slotPcs calls e := by
  rw [slotPcs_moved h, hpc, ← slotPcs_of_lt h, Function.update_eq_self]

/-- Operations look alike: nothing a slot shows of them has changed. -/
structure OpsAlike (s s' : ManagerState) : Prop where
  size : s'.ops.size = s.ops.size
  entry : ∀ o, (s'.ops o).entry = (s.ops o).entry
  outcome : ∀ o, (s'.ops o).outcome = (s.ops o).outcome
  complete : ∀ o, (s'.ops o).complete = (s.ops o).complete

theorem OpsAlike.of_eq (h : s'.ops = s.ops) : OpsAlike s s' := by
  constructor <;> simp [h]

/-- What a slot shows of a state whose operations look alike. -/
theorem OpsAlike.slot_eq (h : OpsAlike s s') (e : ℕ) :
    s'.slot e = { s.slot e with
      lock := (s'.monitors e).lock, operation := (s'.monitors e).operation
      pc := slotPcs s'.calls e } := by
  simp only [slot, h.size, h.entry, h.outcome, h.complete]

@[simp] theorem slot_tick (s : ManagerState) (e : ℕ) : s.tick.slot e = s.slot e := rfl

/-! ### Steps of calls -/

section Calls

variable {a : ManagerState}

/-- A call that moves between points outside the methods of monitor `e`. -/
theorem slot_outside (ht : t < s.calls.size) {pc : CallPc} (hcalls : s'.calls = moved s.calls t pc)
    (hops : OpsAlike s s') (hmonitor : s'.monitors e = s.monitors e)
    (hpc : pc.inSlot e = (s.calls t).pc.inSlot e) : s'.slot e = s.slot e := by
  rw [hops.slot_eq, hcalls, slotPcs_moved_of_eq ht hpc, hmonitor]
  rfl

/-- A call that moves on inside a method of monitor `e`. -/
theorem slotStep_inside (ht : t < s.calls.size) {p : SlotPc Request ℕ} {k : Frame} {r : Option ℕ}
    (hcalls : a.calls = s.calls) (hops : OpsAlike s a)
    (h : Slot.Step (s.slot e) { s.slot e with
      lock := (a.monitors e).lock, operation := (a.monitors e).operation
      pc := (s.slot e).at' t (some p) }) :
    Slot.Step (s.slot e) ((a.inside t e p k r).slot e) := by
  have hops' : OpsAlike s (a.inside t e p k r) :=
    ⟨hops.size, hops.entry, hops.outcome, hops.complete⟩
  rw [hops'.slot_eq, calls_inside, hcalls, slotPcs_moved ht]
  simpa [CallPc.inSlot, Slot.at', slot] using h

/-- A call that leaves a method of monitor `e`. -/
theorem slotStep_leave (ht : t < s.calls.size) {k : Frame} {res : MethodResult}
    (hcalls : a.calls = s.calls) (hops : OpsAlike s a)
    (h : Slot.Step (s.slot e) { s.slot e with
      lock := (a.monitors e).lock.release, operation := (a.monitors e).operation
      pc := (s.slot e).at' t none }) :
    Slot.Step (s.slot e) ((a.leave t e k res).slot e) := by
  have hops' : OpsAlike s (a.leave t e k res) :=
    ⟨hops.size, hops.entry, hops.outcome, hops.complete⟩
  rw [hops'.slot_eq, calls_leave, hcalls, slotPcs_moved ht]
  simpa [CallPc.inSlot, Slot.at', slot] using h

theorem outcome_slot {o : ℕ} (h : (s.slot e).born o) : (s.slot e).outcome o = (s.ops o).outcome :=
  if_pos h

theorem complete_slot {o : ℕ} (h : (s.slot e).born o) :
    (s.slot e).complete o = (s.ops o).complete := by
  simp [slot, h.1, h.2]

theorem pc_slot {p : SlotPc Request ℕ} {k : Frame} (ht : t < s.calls.size)
    (hpc : (s.calls t).pc = .method e (.inside p) k) : (s.slot e).pc t = some p := by
  show slotPcs s.calls e t = some p
  rw [slotPcs_of_lt ht, hpc]
  exact if_pos rfl

theorem pc_slot_eq_none (ht : t < s.calls.size) (hpc : (s.calls t).pc.inSlot e = none) :
    (s.slot e).pc t = none :=
  (slotPcs_of_lt ht).trans hpc

/-- Asking for the lock is an arrival. -/
theorem slotStep_arrive (ht : t < s.calls.size) {m : Method} {k : Frame}
    (henters : (s.slot e).Enters t m) : Slot.Step (s.slot e) ((s.arrive t e m k).slot e) := by
  rcases hfree : (s.monitors e).lock.free with _ | _
  · rw [arrive_of_not_free s t e hfree]
    refine slotStep_inside ht rfl (.of_eq rfl) ?_
    simpa using Slot.Step.lineUp henters hfree
  · rw [arrive_of_free s t e hfree]
    refine slotStep_inside ht rfl (.of_eq rfl) ?_
    simpa using Slot.Step.arrive henters hfree

theorem slot_arrive_of_ne {e' : ℕ} (hne : e' ≠ e) (ht : t < s.calls.size) {m : Method} {k : Frame}
    (hpc : (s.calls t).pc.inSlot e' = none) : (s.arrive t e m k).slot e' = s.slot e' := by
  have hinside : ∀ p, (CallPc.method e (.inside p) k).inSlot e' = none := fun p ↦ by
    simp [CallPc.inSlot, hne.symm]
  rcases hfree : (s.monitors e).lock.free with _ | _
  · rw [arrive_of_not_free s t e hfree]
    exact slot_outside ht (calls_inside _ _ _ _ _ _) (.of_eq rfl) (by simp [hne])
      ((hinside _).trans hpc.symm)
  · rw [arrive_of_free s t e hfree]
    exact slot_outside ht (calls_inside _ _ _ _ _ _) (.of_eq rfl) (by simp [hne])
      ((hinside _).trans hpc.symm)

/-- The caller has checked what the slot asks for. -/
theorem Asks.enters {m : Method} (h : s.Asks e m) (ht : t < s.calls.size)
    (hpc : (s.calls t).pc.inSlot e = none) : (s.slot e).Enters t m := by
  have hnone := pc_slot_eq_none ht hpc
  cases m with
  | monitor req => exact ⟨hnone, h⟩
  | wait => exact hnone
  | reap o => exact absurd h id
  | cancel seen =>
    cases seen with
    | none => exact hnone
    | some o => exact ⟨hnone, h.1⟩

/-- Starting an operation. -/
theorem slotStep_start (ht : t < s.calls.size) {req : Request} {k : Frame}
    (hpc : (s.calls t).pc = .method e (.inside (.critical (.monitor req))) k)
    (hnone : (s.monitors e).operation = none) :
    Slot.Step (s.slot e) (((s.startOperation e req).leave t e k .ok).slot e) := by
  have hfresh : ¬ (s.slot e).born s.ops.size := fun h ↦ absurd h.1 (lt_irrefl _)
  have hstep := Slot.Step.start (o := s.ops.size) (pc_slot ht hpc) hnone hfresh
    (if_neg hfresh) (by simp [slot])
  convert hstep using 1
  rw [slot, Slot.mk.injEq]
  refine ⟨by simp [slot], by simp, ?_, ?_, ?_, ?_⟩
  · rw [calls_leave, calls_startOperation, slotPcs_moved ht]
    rfl
  · funext o
    simp only [slot, ops_leave, ops_startOperation, Heap.size_alloc, Heap.alloc_apply]
    grind
  · funext o
    simp only [slot, ops_leave, ops_startOperation, Heap.size_alloc, Heap.alloc_apply]
    grind [RunningOperation.outcome]
  · funext o
    simp only [slot, ops_leave, ops_startOperation, Heap.size_alloc, Heap.alloc_apply]
    grind

/-- Collecting an operation. -/
theorem slotStep_collected (ht : t < s.calls.size) {m : Method} {o : ℕ} {p : SlotPc Request ℕ}
    {k : Frame} (hat : (s.slot e).pc t = some p) (hp : p = .awaitTask m o ∨ p = .report m o)
    (hout : ((s.slot e).outcome o).isSome) :
    Slot.Step (s.slot e) (((s.clearOperation e m o).leave t e k .ok).slot e) := by
  refine slotStep_leave ht rfl (.of_eq rfl) ?_
  have hop : ((s.clearOperation e m o).monitors e).operation = (s.slot e).collected m o := by
    cases m <;> simp [clearOperation, Slot.collected, slot]
  rw [hop, lock_clearOperation]
  exact Slot.Step.finish hat hp hout

/-- **A step inside a method of the monitor is a step of the slot.** -/
theorem slotStep_method (hsafe : (s.slot e).Safe) (ht : t < s.calls.size) {p : SlotPc Request ℕ}
    {k : Frame} {r : Reply} (hpc : (s.calls t).pc = .method e (.inside p) k)
    (ha : MethodMove s t e k p r a) : Slot.Step (s.slot e) (a.slot e) := by
  have hat := pc_slot ht hpc
  cases ha with
  | granted hh hw =>
    refine slotStep_inside ht rfl (.of_eq rfl) ?_
    simpa using Slot.Step.grant (s := s.slot e) hh hw
  | conflict | absent | idle =>
    exact slotStep_leave ht rfl (.of_eq rfl) (Slot.Step.leave hat (Or.inl rfl))
  | started hnone => exact slotStep_start ht hpc hnone
  | joined ho =>
    refine slotStep_inside ht rfl (.of_eq rfl) ?_
    simpa using Slot.Step.join hat ho
  | collecting => exact slotStep_inside ht rfl (.of_eq rfl) (Slot.Step.collect hat)
  | aborting ho =>
    refine slotStep_inside ht (calls_cancelTask _ _) ⟨by simp, by simp, by simp, by simp⟩ ?_
    rw [monitors_cancelTask]
    exact Slot.Step.abort hat ho
  | woken hc =>
    have hborn := hsafe.joined t _ hat
    exact slotStep_arrive ht ⟨hat, (complete_slot hborn).trans hc⟩
  | collected hout =>
    refine slotStep_collected ht hat (Or.inl rfl) ?_
    rw [outcome_slot (hsafe.born_of_awaits (Or.inl hat))]
    rcases hout with hout | ⟨hout, -⟩ <;> rw [hout] <;> rfl
  | reporting hout =>
    refine slotStep_inside ht rfl (.of_eq rfl) (Slot.Step.failed hat ?_)
    rw [outcome_slot (hsafe.born_of_awaits (Or.inl hat)), hout]
    rfl
  | interrupted =>
    exact slotStep_leave ht rfl (.of_eq rfl) (Slot.Step.leave hat (Or.inr ⟨_, rfl⟩))
  | reported => exact slotStep_collected ht hat (Or.inr rfl) (hsafe.reports t _ _ hat)

/-- Starting an operation shows in one monitor only. -/
theorem slot_start_of_ne {e' : ℕ} (hne : e' ≠ e) (ht : t < s.calls.size) {req : Request}
    {k : Frame} {p : SlotPc Request ℕ} (hpc : (s.calls t).pc = .method e (.inside p) k) :
    ((s.startOperation e req).leave t e k .ok).slot e' = s.slot e' := by
  rw [slot, slot, Slot.mk.injEq]
  refine ⟨by simp [hne], by simp [hne], ?_, ?_, ?_, ?_⟩
  · rw [calls_leave, calls_startOperation]
    refine slotPcs_moved_of_eq ht ?_
    simp [hpc, CallPc.inSlot, hne.symm]
  all_goals
    funext o
    simp only [ops_leave, ops_startOperation, Heap.size_alloc, Heap.alloc_apply]
    grind

/-- **A step inside a method of one monitor does nothing to another.** -/
theorem slot_method_of_ne {e' : ℕ} (hne : e' ≠ e) (ht : t < s.calls.size) {p : SlotPc Request ℕ}
    {k : Frame} {r : Reply} (hpc : (s.calls t).pc = .method e (.inside p) k)
    (ha : MethodMove s t e k p r a) : a.slot e' = s.slot e' := by
  have hold : (s.calls t).pc.inSlot e' = none := by simp [hpc, CallPc.inSlot, hne.symm]
  have hinside : ∀ p', (CallPc.method e (.inside p') k).inSlot e' = none := fun p' ↦ by
    simp [CallPc.inSlot, hne.symm]
  cases ha with
  | granted | joined =>
    exact slot_outside ht (calls_inside _ _ _ _ _ _) (.of_eq rfl) (by simp [hne])
      ((hinside _).trans hold.symm)
  | conflict | absent | idle | interrupted =>
    exact slot_outside ht (calls_leave _ _ _ _ _) (.of_eq rfl) (by simp [hne]) hold.symm
  | started => exact slot_start_of_ne hne ht hpc
  | collecting | reporting =>
    exact slot_outside ht (calls_inside _ _ _ _ _ _) (.of_eq rfl) rfl ((hinside _).trans hold.symm)
  | @aborting seen o =>
    have hcalls : ((s.cancelTask o).inside t e (.awaitTask (.cancel seen) o) k
        (if (s.ops o).task.ended then some t else none)).calls =
          moved s.calls t (.method e (.inside (.awaitTask (.cancel seen) o)) k) := by
      rw [calls_inside, calls_cancelTask]
    exact slot_outside ht hcalls ⟨by simp, by simp, by simp, by simp⟩ (by simp)
      ((hinside _).trans hold.symm)
  | woken => exact slot_arrive_of_ne hne ht hold
  | collected | reported =>
    refine slot_outside ht (calls_leave _ _ _ _ _) (.of_eq rfl) ?_ hold.symm
    simp [clearOperation, hne]

end Calls

/-! ### Steps of operations -/

/-- What an operation's outcome becomes. -/
theorem outcome_afterOp (o : ℕ) (f : OpFrame) (o' : ℕ) :
    ((s.afterOp o f).ops o').outcome = if o' = o then f.task.outcome else (s.ops o').outcome := by
  rw [RunningOperation.outcome_eq, task_afterOp]
  split <;> rfl

/-- A step after which the task has not ended shows in no monitor. -/
theorem slot_afterOp_of_not_ended {o : ℕ} {f : OpFrame} (hrunning : (s.ops o).outcome = none)
    (hf : f.task.outcome = none) : (s.afterOp o f).slot e = s.slot e := by
  have hops : OpsAlike s (s.afterOp o f) := by
    refine ⟨by simp, by simp, fun o' ↦ ?_, fun o' ↦ ?_⟩
    · rw [outcome_afterOp, hf]
      split
      · next h => rw [h, hrunning]
      · rfl
    · rw [complete_afterOp, finalizes, ← OpTask.isSome_outcome, hf]
      simp
  rw [hops.slot_eq, monitors_afterOp, calls_afterOp]
  rfl

/-- **The step that ends a task, seen from its own monitor.** -/
theorem slotStep_ended {o : ℕ} (ho : o < s.ops.size) {f : OpFrame}
    (hrunning : (s.ops o).outcome = none) {r : TaskOutcome} (hf : f.task.outcome = some r)
    (hrecorded : ∀ o', (s.monitors (s.ops o).entry).operation = some o' →
      (s.slot (s.ops o).entry).born o') :
    Slot.Step (s.slot (s.ops o).entry) ((s.afterOp o f).slot (s.ops o).entry) := by
  have hborn : (s.slot (s.ops o).entry).born o := ⟨ho, rfl⟩
  have hstep := Slot.Step.ended (s := s.slot (s.ops o).entry) (o := o) (r := r)
    (c := ((s.afterOp o f).slot (s.ops o).entry).complete) hborn ?_ ?_
  · convert hstep using 1
    rw [slot, slot, Slot.mk.injEq]
    refine ⟨by simp, by simp, by simp, by simp, ?_, by simp [slot]⟩
    funext o'
    simp only [Function.update_apply, outcome_afterOp, size_ops_afterOp, entry_afterOp, hf]
    grind
  · rw [outcome_slot hborn, hrunning]
  · rcases hfin : s.finalizes o f with _ | _
    · left
      funext o'
      simp [slot, complete_afterOp, hfin]
    · right
      funext o'
      simp only [Slot.signal, operation_slot]
      rcases hop : (s.monitors (s.ops o).entry).operation with _ | o''
      · simp [slot, complete_afterOp, hop]
      · have hborn' := hrecorded o'' hop
        show _ = Function.update (s.slot (s.ops o).entry).complete o'' true o'
        rw [Function.update_apply]
        split
        · next h =>
          subst h
          simp [slot, complete_afterOp, hfin, hop, hborn'.1, hborn'.2]
        · next h => simp [slot, complete_afterOp, hop, Ne.symm h]

/-- The step that ends a task shows in no other monitor. -/
theorem slot_ended_of_ne {o : ℕ} {f : OpFrame} (hne : e ≠ (s.ops o).entry)
    (hrecorded : ∀ o', (s.monitors (s.ops o).entry).operation = some o' →
      (s.slot (s.ops o).entry).born o') : (s.afterOp o f).slot e = s.slot e := by
  rw [slot, slot, Slot.mk.injEq]
  refine ⟨by simp, by simp, by simp, by simp, ?_, ?_⟩
  · funext o'
    simp only [outcome_afterOp, size_ops_afterOp, entry_afterOp]
    grind
  · funext o'
    simp only [complete_afterOp, size_ops_afterOp, entry_afterOp]
    by_cases hborn : o' < s.ops.size ∧ (s.ops o').entry = e
    · have hother : (s.monitors (s.ops o).entry).operation ≠ some o' := by
        intro h
        exact hne (hborn.2.symm.trans (hrecorded o' h).2)
      simp [hother]
    · simp [hborn]

/-- A step of the helper shows in no monitor. -/
theorem slot_watch {o : ℕ} {f : OpFrame} (hf : f.task.pc = (s.ops o).task.pc) :
    (s.applyFrame o f).slot e = s.slot e := by
  have hops : OpsAlike s (s.applyFrame o f) := by
    refine ⟨rfl, fun o' ↦ ?_, fun o' ↦ ?_, fun o' ↦ ?_⟩
    · exact Heap.modify_field RunningOperation.entry s.ops o o' (fun x ↦ { x with task := f.task })
        rfl
    · refine Heap.modify_field RunningOperation.outcome s.ops o o'
        (fun x ↦ { x with task := f.task }) ?_
      simp only [RunningOperation.outcome, hf]
    · exact Heap.modify_field RunningOperation.complete s.ops o o'
        (fun x ↦ { x with task := f.task }) rfl
  rw [hops.slot_eq]
  rfl

/-! ### The refinement theorem -/

/-- Both invariants of the control flow. -/
structure Sound (s : ManagerState) : Prop where
  control : Control s
  /-- Every monitor is a safe slot. -/
  safe : ∀ e, (s.slot e).Safe

theorem inSlot_caller (p : CallerPc) : (CallPc.caller p).inSlot e = none := rfl

theorem inSlot_pc (n : Next) : n.pc.inSlot e = none := by
  cases n <;> rfl

/-- A call that follows a block is outside the methods of every monitor before and after. -/
theorem slot_follow (ht : t < s.calls.size) (hpc : (s.calls t).pc.inSlot e = none)
    (b : Shared × Next) : (s.follow t b).slot e = s.slot e :=
  slot_outside ht (calls_follow _ _ _) (.of_eq (ops_follow _ _ _)) (by rw [monitors_follow])
    ((inSlot_pc _).trans hpc.symm)

theorem outcome_of_opBlock {o : ℕ} {r : OpReply} {f : OpFrame}
    (h : (s.opFrame o).opBlock (s.opContext config o) r = some f) : (s.ops o).outcome = none := by
  unfold RunningOperation.outcome
  split
  · next hpc => rw [opBlock_of_ended (f := s.opFrame o) hpc] at h; cases h
  · rfl

/-- **Every step of the manager leaves a monitor alone or is a step of its slot.** -/
theorem slot_step (h : Sound s) (hs : s.step config l = some s') (e : ℕ) :
    s'.slot e = s.slot e ∨ Slot.Step (s.slot e) (s'.slot e) := by
  cases move_of_step hs with
  | @call c hrun =>
    left
    have hcalls : slotPcs (s.begin c).calls e = slotPcs s.calls e := by
      funext u
      simp only [slotPcs, calls_begin, Heap.size_alloc, Heap.alloc_apply]
      grind [inSlot_caller]
    rw [slot_tick, OpsAlike.slot_eq (.of_eq (ops_begin s c)), hcalls]
    rfl
  | block hturn hpc hb =>
    left
    rw [slot_tick, slot_follow hturn.2 (by rw [hpc]; rfl)]
  | @acquire t e₁ m k hturn hpc =>
    have hnone : (s.calls t).pc.inSlot e = none := by rw [hpc]; rfl
    rcases eq_or_ne e e₁ with rfl | hne
    · have hasks := (h.control.asks t hturn.2 e m k hpc).2
      exact Or.inr (slotStep_arrive hturn.2 (hasks.enters hturn.2 hnone))
    · exact Or.inl (slot_arrive_of_ne hne hturn.2 hnone)
  | @method t e₁ p k r a hturn hpc ha =>
    rw [slot_tick]
    rcases eq_or_ne e e₁ with rfl | hne
    · exact Or.inr (slotStep_method (h.safe e) hturn.2 hpc (methodMove_of_eq_some ha))
    · exact Or.inl (slot_method_of_ne hne hturn.2 hpc (methodMove_of_eq_some ha))
  | resume hturn hpc =>
    left
    rw [slot_tick, slot_follow hturn.2 (by rw [hpc]; rfl)]
  | @op o r f hrun ho hf =>
    have hrunning := outcome_of_opBlock hf
    have hrecorded := (h.safe (s.ops o).entry).recorded
    rw [slot_tick]
    rcases hended : f.task.outcome with _ | x
    · exact Or.inl (slot_afterOp_of_not_ended hrunning hended)
    · rcases eq_or_ne e (s.ops o).entry with rfl | hne
      · exact Or.inr (slotStep_ended ho hrunning hended hrecorded)
      · exact Or.inl (slot_ended_of_ne hne hrecorded)
  | watch hrun ho hf =>
    left
    rw [slot_tick, slot_watch (pc_of_watchBlock hf)]

theorem sound_initial : Sound initial := ⟨control_initial, fun e ↦ (slot_fresh e).safe⟩

/-- **Soundness is inductive.** -/
theorem Sound.step (h : Sound s) (hs : s.step config l = some s') : Sound s' := by
  refine ⟨h.control.step ?_ hs, fun e ↦ ?_⟩
  · intro t e m m' k hpc ht hmem
    have hqueued := ((h.safe e).waiters t m').1 hmem
    rw [pc_slot ht hpc] at hqueued
    simpa using hqueued.symm
  · rcases slot_step h hs e with heq | hstep
    · rw [heq]
      exact h.safe e
    · exact (h.safe e).step hstep

/-- Operation `o` has been started and has not ended. -/
def Unfinished (s : ManagerState) (o : ℕ) : Prop := o < s.ops.size ∧ (s.ops o).outcome = none

instance (s : ManagerState) : DecidablePred s.Unfinished := fun o ↦
  inferInstanceAs (Decidable (o < s.ops.size ∧ (s.ops o).outcome = none))

/-- **An operation that has not ended is the one on record.** -/
theorem Sound.record_of_unfinished (h : Sound s) {o : ℕ} (ho : Unfinished s o) :
    (s.monitors (s.ops o).entry).operation = some o :=
  (h.safe (s.ops o).entry).unfinished o ⟨ho.1, rfl⟩ ((outcome_slot ⟨ho.1, rfl⟩).trans ho.2)

end ManagerState

/-- **Every reachable state is sound.** -/
theorem Run.sound {config : LabConfig} {τ : List (Transition ManagerState Label)}
    {s : ManagerState} (h : Run config .initial τ s) : s.Sound :=
  h.invariant (fun _ _ _ hP hab ↦ ManagerState.Sound.step hP hab) ManagerState.sound_initial

end Nublado.Lab
