import Nublado.Lab.Manager.Effects

/-!
# What a cancellation leaves behind

Only `_LabMonitor.cancel` cancels the task of an operation, and it holds the monitor's lock until that
operation is off the record. So whoever else gets hold of the lock finds an operation on record that
nobody has cancelled (`Cancellation.not_cancelled`).

* A task that nobody has cancelled does not end as cancelled: timeouts cancel it too, but from inside,
  and are turned into exceptions (`OpTask.Honest`, which every step of a task keeps).
* While a cancelled operation is on record, a call of `cancel` is waiting for its task
  (`Cancellation.held`).
-/

namespace Nublado.Lab

namespace OpTask

/-- Nothing about the task shows a cancellation from outside. -/
structure Undisturbed (k : OpTask) : Prop where
  throwCancel : k.throwCancel = false
  ended : k.pc ≠ .ended .cancelled
  unwinding : k.pc ≠ .joinWatch (some .cancelled)

/-- A task that shows a cancellation has been cancelled. -/
def Honest (k : OpTask) : Prop := k.cancelRequested = false → k.Undisturbed

/-- A task that has been cancelled may show it. -/
theorem honest_cancel (k : OpTask) : k.cancel.Honest := by
  intro hrequested
  unfold cancel at hrequested
  split at hrequested <;> cases hrequested

end OpTask

namespace OpFrame

variable {c : OpContext} {f f' : OpFrame}

/-- What the blocks of a task do about cancellations: they request none, and show none unless one was
requested. -/
structure Continues (f f' : OpFrame) : Prop where
  requested : f'.task.cancelRequested = f.task.cancelRequested
  undisturbed : f.task.cancelRequested = false → f.task.throwCancel = false → f'.task.Undisturbed

/-- Events and the lab's status do not matter. -/
theorem Continues.of_task {f₁ : OpFrame} (h : Continues f₁ f') (htask : f₁.task = f.task) :
    Continues f f' :=
  ⟨htask ▸ h.requested, htask ▸ h.undisturbed⟩

theorem continues_goto {pc : OpPc} (hended : f.task.cancelRequested = false → pc ≠ .ended .cancelled)
    (hunwinding : pc ≠ .joinWatch (some .cancelled)) : Continues f (f.goto pc) :=
  ⟨rfl, fun hrequested hthrow ↦ ⟨hthrow, hended hrequested, hunwinding⟩⟩

/-- A timeout counts as a cancellation only if there was one. -/
theorem continues_unwind {x : Thrown} (hx : f.task.cancelRequested = false → x ≠ .cancelled) :
    Continues f (f.unwind c x) := by
  fun_cases unwind c f x
  · exact continues_goto (by simp) (by simp)
  · exact continues_goto (by simp) (by simp)
  · next hrequested => exact continues_goto (by simp [hrequested]) (by simp)
  · exact continues_goto (by simp) (by simp)
  · exact continues_goto (fun hrequested ↦ absurd rfl (hx hrequested)) (by simp)

theorem continues_succeed : Continues f (f.succeed c) := by
  fun_cases succeed c f
  · exact continues_goto (by simp) (by simp)
  · exact continues_goto (by simp) (by simp)

theorem continues_recordFailure (x : LabException) : Continues f (f.recordFailure c x) := by
  unfold recordFailure
  split
  · exact ⟨rfl, fun _ hthrow ↦ ⟨hthrow, by simp [goto], by simp [goto]⟩⟩
  · exact ⟨rfl, fun _ hthrow ↦ ⟨hthrow, by simp [goto], by simp [goto]⟩⟩

/-! ### `_watch_lab_spawn` -/

theorem continues_beginWatch : Continues f f.beginWatch :=
  ⟨rfl, fun _ hthrow ↦ ⟨hthrow, by simp [beginWatch], by simp [beginWatch]⟩⟩

theorem continues_afterJoin {unwinding : Option Thrown}
    (h : f.task.cancelRequested = false → unwinding ≠ some .cancelled) :
    Continues f (f.afterJoin c unwinding) := by
  cases unwinding with
  | none =>
    show Continues f (f.podStarted c)
    unfold podStarted
    exact .of_task continues_succeed rfl
  | some x =>
    refine continues_unwind fun hrequested hx ↦ h hrequested ?_
    rw [hx]

theorem continues_joined {unwinding : Option Thrown}
    (h : f.task.cancelRequested = false → unwinding ≠ some .cancelled) :
    Continues f (f.joined c unwinding) := by
  unfold joined
  split
  · exact continues_unwind (by simp)
  · exact continues_afterJoin h

theorem continues_beginJoin {unwinding : Option Thrown}
    (h : f.task.cancelRequested = false → unwinding ≠ some .cancelled) :
    Continues f (f.beginJoin c unwinding) := by
  unfold beginJoin
  split
  · exact continues_joined h
  · refine ⟨rfl, fun hrequested hthrow ↦ ⟨hthrow, by simp, fun hpc ↦ h hrequested ?_⟩⟩
    simpa using hpc

/-! ### `_spawn_lab` and `_delete_lab` -/

theorem continues_beginBuild : Continues f f.beginBuild := by
  unfold beginBuild
  exact .of_task (continues_goto (by simp) (by simp)) rfl

theorem continues_afterSecrets (data : List (String × List String)) :
    Continues f (f.afterSecrets c data) := by
  unfold afterSecrets
  split
  · exact continues_unwind (by simp)
  · split
    · exact continues_goto (by simp) (by simp)
    · exact continues_beginBuild

theorem continues_gatherSecrets : Continues f (f.gatherSecrets c) := by
  unfold gatherSecrets
  split
  · exact continues_afterSecrets _
  · exact continues_goto (by simp) (by simp)

theorem continues_afterBuild (spec : LabSpecification) : Continues f (f.afterBuild c spec) := by
  unfold afterBuild
  split
  · exact continues_goto (by simp) (by simp)
  · exact continues_unwind (by simp)

theorem continues_afterNamespace : Continues f (f.afterNamespace c) := by
  unfold afterNamespace
  dsimp only
  split
  · exact .of_task continues_gatherSecrets rfl
  · exact .of_task continues_succeed rfl

theorem continues_beginDelete : Continues f (f.beginDelete c) := by
  unfold beginDelete
  exact .of_task (continues_goto (by simp) (by simp)) rfl

theorem continues_afterPod : Continues f (f.afterPod c) := by
  unfold afterPod
  exact .of_task (continues_goto (by simp) (by simp)) rfl

theorem continues_afterCreate (spec : LabSpecification) : Continues f (f.afterCreate c spec) := by
  unfold afterCreate
  exact .of_task continues_beginWatch rfl

theorem continues_beginBody : Continues f (f.beginBody c) := by
  unfold beginBody
  split
  · dsimp only
    split
    · exact .of_task continues_beginDelete rfl
    · exact .of_task continues_gatherSecrets rfl
  · exact continues_beginWatch
  · exact continues_beginDelete

/-! ### Steps -/

/-- A task that gets an answer continues. -/
theorem continues_resumed {r : OpReply} (hhonest : f.task.Honest) (h : f.resumed c r = some f') :
    Continues f f' := by
  have hunwinding : ∀ unwinding, f.task.pc = .joinWatch unwinding →
      f.task.cancelRequested = false → unwinding ≠ some .cancelled := by
    rintro unwinding hpc hrequested rfl
    exact (hhonest hrequested).unwinding hpc
  revert h
  fun_cases resumed c f r
  all_goals
    intro h
    first | (cases h; done) | obtain rfl := Option.some.inj h
  all_goals first
    | exact continues_unwind (by simp)
    | exact continues_beginBody
    | exact continues_beginJoin (by simp)
    | exact continues_joined (hunwinding _ ‹_›)
    | exact continues_afterPod
    | exact continues_afterNamespace
    | exact continues_afterSecrets _
    | exact continues_beginBuild
    | exact continues_afterBuild _
    | exact continues_afterCreate _
    | exact continues_recordFailure _
    | exact continues_goto (by simp) (by simp)

/-- A task continues, or what it throws was requested. -/
theorem continues_opBlock {r : OpReply} (hhonest : f.task.Honest) (h : f.opBlock c r = some f') :
    f'.task.cancelRequested = f.task.cancelRequested ∧ f'.task.Honest := by
  unfold opBlock at h
  split at h
  · next hthrow =>
    -- the cancellation was requested, and still is
    have hrequested : f.task.cancelRequested = true := by
      by_contra hnot
      have := (hhonest (by simpa using hnot)).throwCancel
      simp [hthrow] at this
    have hvacuous : ∀ {x : Option Thrown}, f.task.cancelRequested = false → x ≠ some .cancelled := by
      intro x hnot
      rw [hrequested] at hnot
      cases hnot
    have hkept : f'.task.cancelRequested = f.task.cancelRequested := by
      revert h
      fun_cases cancelled c f
      all_goals
        intro h
        first | (cases h; done) | obtain rfl := Option.some.inj h
      · next g _ => exact (continues_beginJoin (f := g) hvacuous).requested
      · next g _ _ => exact (continues_afterJoin (f := g) hvacuous).requested
      · rfl
    refine ⟨hkept, fun hnot ↦ ?_⟩
    rw [hkept, hrequested] at hnot
    cases hnot
  · next hthrow =>
    obtain ⟨hkept, hundisturbed⟩ := continues_resumed hhonest h
    exact ⟨hkept, fun hnot ↦ hundisturbed (hkept ▸ hnot) (by simpa using hthrow)⟩

/-- The helper changes nothing about it. -/
theorem continues_watchBlock {r : WatchReply} (h : f.watchBlock r = some f') :
    f'.task.cancelRequested = f.task.cancelRequested ∧ (f.task.Honest → f'.task.Honest) := by
  revert h
  fun_cases watchBlock f r
  all_goals
    intro h
    first
      | (cases h; done)
      | (obtain rfl := Option.some.inj h
         exact ⟨rfl, fun hhonest hrequested ↦ ⟨(hhonest hrequested).throwCancel,
           (hhonest hrequested).ended, (hhonest hrequested).unwinding⟩⟩)

end OpFrame

namespace ManagerState

variable {config : LabConfig} {s s' : ManagerState} {l : Label} {t e o : ℕ}

/-- Call `t` waits in `cancel` for the task of operation `o`, or reports how it failed. -/
def Cancels (s : ManagerState) (t e o : ℕ) : Prop :=
  t < s.calls.size ∧ ∃ seen k, (s.calls t).pc = .method e (.inside (.awaitTask (.cancel seen) o)) k ∨
    (s.calls t).pc = .method e (.inside (.report (.cancel seen) o)) k

/-- **What is known about cancelled operations.** -/
structure Cancellation (s : ManagerState) : Prop where
  /-- A task that shows a cancellation has been cancelled. -/
  honest : ∀ o < s.ops.size, (s.ops o).task.Honest
  /-- While a cancelled operation is on record, someone waits for it in `cancel`. -/
  held : ∀ e o, (s.monitors e).operation = some o → (s.ops o).task.cancelRequested = true →
    ∃ t, s.Cancels t e o

theorem cancellation_initial : Cancellation initial where
  honest o ho := absurd ho (Nat.not_lt_zero o)
  held e o ho := by cases ho

/-- **A task is cancelled in `cancel`**, which turns to waiting for it. -/
theorem cancelRequested_step (hhonest : ∀ o < s.ops.size, (s.ops o).task.Honest)
    (hs : s.step config l = some s') (ho : o < s'.ops.size) :
    (s'.ops o).task.Honest ∧ ((s'.ops o).task.cancelRequested = true →
      (o < s.ops.size ∧ (s.ops o).task.cancelRequested = true) ∨
        ∃ t e, (s.monitors e).operation = some o ∧ s'.Cancels t e o) := by
  -- the task is what it was
  have hsame : s'.ops = s.ops → (s'.ops o).task.Honest ∧ ((s'.ops o).task.cancelRequested = true →
      (o < s.ops.size ∧ (s.ops o).task.cancelRequested = true) ∨
        ∃ t e, (s.monitors e).operation = some o ∧ s'.Cancels t e o) := by
    intro hops
    rw [hops] at ho ⊢
    exact ⟨hhonest o ho, fun hrequested ↦ Or.inl ⟨ho, hrequested⟩⟩
  -- a block of the task of `o'` keeps what it shows
  have hblock : ∀ {o' : ℕ} {k : OpTask}, s'.ops.size = s.ops.size →
      (s'.ops o).task = (if o = o' then k else (s.ops o).task) →
      k.cancelRequested = (s.ops o').task.cancelRequested →
      (k.Honest ∨ o' ≠ o) → (s'.ops o).task.Honest ∧ ((s'.ops o).task.cancelRequested = true →
      (o < s.ops.size ∧ (s.ops o).task.cancelRequested = true) ∨
        ∃ t e, (s.monitors e).operation = some o ∧ s'.Cancels t e o) := by
    intro o' k hsize htask hkept hk
    rw [hsize] at ho
    rw [htask]
    split
    · next hoo =>
      subst hoo
      refine ⟨hk.resolve_right (by simp), fun hrequested ↦ Or.inl ⟨ho, ?_⟩⟩
      rw [← hkept, hrequested]
    · exact ⟨hhonest o ho, fun hrequested ↦ Or.inl ⟨ho, hrequested⟩⟩
  cases move_of_step hs with
  | call | acquire => exact hsame (by simp)
  | block | resume => exact hsame (by simp)
  | @method t e p k r a hturn hpc ha =>
    cases methodMove_of_eq_some ha with
    | started =>
      simp only [ops_tick, ops_leave, ops_startOperation, Heap.size_alloc, Heap.alloc_apply] at ho ⊢
      split
      · exact ⟨fun _ ↦ ⟨rfl, by simp, by simp⟩, by simp⟩
      · exact ⟨hhonest o (by omega), fun hrequested ↦ Or.inl ⟨by omega, hrequested⟩⟩
    | @aborting seen o' ho' =>
      rw [ops_tick, ops_inside, size_ops_cancelTask] at ho
      rcases eq_or_ne o o' with rfl | hne
      · refine ⟨?_, fun _ ↦ Or.inr ⟨t, e, ho', ?_⟩⟩
        · rw [ops_tick, ops_inside, cancelTask]
          split
          · exact hhonest o ho
          · rw [Heap.modify_self]
            exact OpTask.honest_cancel _
        · refine ⟨by simpa using hturn.2, seen, k, Or.inl ?_⟩
          simp
      · rw [ops_tick, ops_inside, ops_cancelTask_of_ne _ _ hne]
        exact ⟨hhonest o ho, fun hrequested ↦ Or.inl ⟨ho, hrequested⟩⟩
    | woken => exact hsame (by simp)
    | _ => exact hsame rfl
  | @op o' r f hrun ho' hf =>
    obtain ⟨hkept, hhonest'⟩ := OpFrame.continues_opBlock (hhonest o' ho') hf
    exact hblock (by simp) (by rw [ops_tick, task_afterOp]) hkept (Or.inl hhonest')
  | @watch o' r f hrun ho' hf =>
    obtain ⟨hkept, hhonest'⟩ := OpFrame.continues_watchBlock hf
    refine hblock (k := f.task) rfl ?_ hkept (Or.inl (hhonest' (hhonest o' ho')))
    simp only [ops_tick, applyFrame, Heap.modify_apply]
    split <;> rfl

/-- A call of `cancel` waits until the record is cleared. -/
theorem Cancels.step (h : s.Cancels t e o) (hs : s.step config l = some s')
    (hrecord : (s'.monitors e).operation = some o) : s'.Cancels t e o := by
  obtain ⟨ht, seen, k, hpc⟩ := h
  obtain ⟨ht', -, hsame | ⟨r, rfl⟩⟩ := call_step hs ht
  · exact ⟨ht', seen, k, by rwa [hsame]⟩
  · have hcleared : ∀ res, (((s.clearOperation e (.cancel seen) o).leave t e k res).tick.monitors
        e).operation = none := by
      intro res
      simp [operation_clearOperation, Slot.collected]
    cases move_of_step hs with
    | block _ hpc' | acquire _ hpc' | resume _ hpc' =>
      rw [hpc'] at hpc
      rcases hpc with hpc | hpc <;> cases hpc
    | @method _ e' p k' _ a hturn hpc' ha =>
      rw [hpc'] at hpc
      rcases hpc with hpc | hpc
      · cases hpc
        cases methodMove_of_eq_some ha with
        | collected =>
          rw [hcleared] at hrecord
          cases hrecord
        | reporting => exact ⟨ht', seen, k, Or.inr (by simp)⟩
        | interrupted _ hnot => exact absurd rfl (hnot seen)
      · cases hpc
        cases methodMove_of_eq_some ha with
        | reported =>
          rw [hcleared] at hrecord
          cases hrecord

/-- **What is known about cancelled operations is inductive.** -/
theorem Cancellation.step (h : Cancellation s) (hsound : Sound s) (hs : s.step config l = some s') :
    Cancellation s' := by
  refine ⟨fun o ho ↦ (cancelRequested_step h.honest hs ho).1, fun e o hrecord hrequested ↦ ?_⟩
  have hborn' := ((hsound.step hs).safe e).recorded o hrecord
  rcases (cancelRequested_step h.honest hs hborn'.1).2 hrequested with ⟨ho, hrequested'⟩ | hcancels
  · -- the operation was cancelled before, and was on record then
    have hrecord' : (s.monitors e).operation = some o := by
      cases hsound.recordMove hs e with
      | same hsame => exact hsame.symm.trans hrecord
      | started _ _ hnone =>
        simp only [monitors_tick, monitors_leave, monitors_startOperation, if_true] at hrecord
        obtain rfl := Option.some.inj hrecord
        exact absurd ho (lt_irrefl _)
      | cleared _ _ _ hm hrec _ =>
        exfalso
        simp only [monitors_tick, monitors_leave, if_true, operation_clearOperation] at hrecord
        rcases hm with rfl | ⟨seen, rfl⟩ <;> simp [Slot.collected, hrec] at hrecord
    obtain ⟨t, hcancels⟩ := h.held e o hrecord' hrequested'
    exact ⟨t, hcancels.step hs hrecord⟩
  · obtain ⟨t, e', hrecord', hcancels⟩ := hcancels
    have hborn := (hsound.safe e').recorded o hrecord'
    have hentry : (s'.ops o).entry = (s.ops o).entry :=
      (op_field_step RunningOperation.entry (fun _ _ ↦ rfl) (fun _ _ ↦ rfl) hs hborn.1).2
    obtain rfl : e' = e := by rw [← hborn.2, ← hborn'.2, hentry]
    exact ⟨t, hcancels⟩

/-- **Whoever else holds the lock finds an operation that nobody has cancelled.** -/
theorem Cancellation.not_cancelled (h : Cancellation s) (hsound : Sound s) {m : Method}
    (hrecord : (s.monitors e).operation = some o) (hholder : (s.monitors e).lock.holder = some (t, m))
    (hm : ∀ seen, m ≠ .cancel seen) : (s.ops o).outcome ≠ some .cancelled := by
  intro hcancelled
  have hborn := (hsound.safe e).recorded o hrecord
  have hrequested : (s.ops o).task.cancelRequested = true := by
    by_contra hnot
    refine (h.honest o hborn.1 (by simpa using hnot)).ended ?_
    unfold RunningOperation.outcome at hcancelled
    split at hcancelled
    · next hpc => rw [hpc, Option.some.inj hcancelled]
    · cases hcancelled
  obtain ⟨u, hu, seen, k, hpc⟩ := h.held e o hrecord hrequested
  have hat : (s.slot e).pc u = some (.awaitTask (.cancel seen) o) ∨
      (s.slot e).pc u = some (.report (.cancel seen) o) :=
    hpc.imp (pc_slot hu) (pc_slot hu)
  have hholds : (s.monitors e).lock.holder = some (u, .cancel seen) :=
    (hsound.safe e).holder_of_awaitTask hat
  rw [hholder] at hholds
  exact hm seen (congrArg Prod.snd (Option.some.inj hholds))

end ManagerState

/-- What is known about cancelled operations holds in every reachable state. -/
theorem Run.cancellation {config : LabConfig} {τ : List (Transition ManagerState Label)}
    {s : ManagerState} (h : Run config .initial τ s) : s.Cancellation := by
  have hboth : s.Sound ∧ s.Cancellation := by
    refine h.invariant (P := fun s ↦ s.Sound ∧ s.Cancellation) ?_
      ⟨ManagerState.sound_initial, ManagerState.cancellation_initial⟩
    rintro a l b ⟨hsound, hcancellation⟩ hab
    exact ⟨hsound.step hab, hcancellation.step hsound hab⟩
  exact hboth.2

end Nublado.Lab
