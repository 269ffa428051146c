import Nublado.Lab.Manager.Effects

/-!
# Completion is signalled

`_monitor_operation` signals that an operation is done in its `finally` block: it closes the stream
the operation was given, sets the completion event, and sets the done event if there is one. The block
runs however the operation ends, provided that the task has entered the `try` statement. A task that is
cancelled before it has taken its first step never does.

`completion_signalled_iff` says that this is the only way for an operation to end without a signal,
in any run, whether or not the monitors are stopped. It rests on two facts.

* The stream that is closed is the one the operation was given, because the record's queue is replaced
  only while no operation is on record (`StreamCurrent`).
* The completion event that is set is the operation's own, because an operation that has not ended is
  the one on record (`Sound.record_of_unfinished`).
-/

namespace Nublado.Lab

namespace ManagerState

variable {config : LabConfig} {s s' : ManagerState} {l : Label} {t e o : ℕ}

/-! ### Streams -/

/-- Clearing the queue of one record leaves those of the others alone. -/
theorem events_clearEvents {sh : Shared} {e' : ℕ} (hne : e ≠ e') :
    ((sh.clearEvents e').records e).events = (sh.records e).events :=
  congrArg LabRecord.events
    (Heap.modify_of_ne sh.records (fun x ↦ { x with events := sh.streams.size }) hne)

/-- `delete_lab` replaces the queue of a record without an operation. -/
theorem events_deleteProceed {e' : ℕ} (hnone : (s.monitors e').operation = none)
    (username : String) (caller : DeleteCaller) :
    ((s.deleteProceed username e' caller).1.records e).events = (s.records e).events ∨
      (s.monitors e).operation = none := by
  rcases eq_or_ne e e' with rfl | hne
  · exact Or.inr hnone
  · left
    rcases hσ : (s.records e').state with _ | σ
    · rw [deleteProceed_of_none hσ]
      exact events_clearEvents hne
    · rw [deleteProceed_of_some hσ]
      exact events_clearEvents hne

/-- A block of the manager's own methods replaces a queue only while no operation is on record. -/
theorem BlockMove.events {p : CallerPc} {r : Reply} {b : Shared × Next} (hb : BlockMove s p r b)
    (hobserved : ∀ cutoff observed, p = .reconcilePass cutoff observed → DistinctKeys observed)
    (he : e < s.records.size) :
    (b.1.records e).events = (s.records e).events ∨ (s.monitors e).operation = none := by
  cases hb with
  | quiet | joining | aborting | reapBegins | reaping | stopBegins | stopping => exact Or.inl rfl
  | ensured => exact Or.inl (congrArg LabRecord.events (Heap.alloc_of_lt _ _ he))
  | refreshed =>
    left
    unfold refreshState
    split
    · rfl
    · split <;> rfl
  | @spawning _ _ e' _ hnone _ | @pending _ _ e' _ _ _ hnone =>
    rcases eq_or_ne e e' with rfl | hne
    · exact Or.inr hnone
    · exact Or.inl (events_clearEvents hne)
  | deleting _ _ hnone => exact events_deleteProceed hnone _ _
  | @passes cutoff observed =>
    left
    have hkeep : e < (s.reconcilePasses observed cutoff).1.records.size ∧
        ((s.reconcilePasses observed cutoff).1.records e).events = (s.records e).events :=
      reconcilePasses_rule (P := fun sh ↦ e < sh.records.size ∧
        (sh.records e).events = (s.records e).events) (fun _ _ _ h ↦ h)
        (fun sh username x h _ ↦ ⟨h.1.trans (Nat.lt_succ_self _),
          (congrArg LabRecord.events (Heap.alloc_of_lt _ _ h.1)).trans h.2⟩)
        (hobserved _ _ rfl) ⟨he, rfl⟩
    exact hkeep.2
  | reapFailed =>
    left
    unfold ManagerState.reapFailed
    split <;> rfl

theorem FrameMove.events {e' : ℕ} {k : Frame} {res : MethodResult} {b : Shared × Next}
    (hb : FrameMove s e' k res b)
    (haborted : ∀ username caller, k = .deleteAborted username caller → res = .ok →
      (s.monitors e').operation = none) :
    (b.1.records e).events = (s.records e).events ∨ (s.monitors e).operation = none := by
  cases hb with
  | quiet | started => exact Or.inl rfl
  | recorded => exact Or.inl (Shared.events_setState _ _ _ _)
  | aborted => exact events_deleteProceed (haborted _ _ rfl rfl) _ _
  | finished =>
    left
    unfold deleteFinish
    dsimp only
    split
    · exact Shared.events_touch _ _ _ _
    · split
      · rw [Shared.events_setState, Shared.events_touch]
      · exact Shared.events_touch _ _ _ _
  | reaped => exact Or.inl (Shared.events_touch _ _ _ _)

/-- **A record's queue is replaced only while no operation is on record.** -/
theorem Sound.events_step (h : Sound s) (hvalid : Valid s) (hs : s.step config l = some s')
    (he : e < s.records.size) :
    (s'.records e).events = (s.records e).events ∨ (s.monitors e).operation = none := by
  cases move_of_step hs with
  | call => exact Or.inl rfl
  | @block t p r b hturn hpc hb =>
    have hp := hvalid.calls t hturn.2
    rw [hpc] at hp
    rw [toShared_tick, toShared_follow]
    exact (blockMove_of_eq_some hb).events (by rintro _ _ rfl; exact hp.2) he
  | acquire => exact Or.inl (by rw [toShared_tick, toShared_arrive])
  | method _ _ ha =>
    rw [toShared_tick, (methodMove_of_eq_some ha).labs_records.2]
    exact Or.inl rfl
  | @resume t e' res k hturn hpc =>
    rw [toShared_tick, toShared_follow]
    refine (frameMove s e' k res).events ?_
    rintro username caller rfl rfl
    exact h.control.aborted t hturn.2 _ _ _ hpc
  | op => exact Or.inl (by simp)
  | watch => exact Or.inl rfl

/-- **An operation that has not ended writes to its record's current queue.** -/
def StreamCurrent (s : ManagerState) : Prop :=
  ∀ o, Unfinished s o → (s.records (s.ops o).entry).events = (s.ops o).stream

/-- An operation was there before, or it is the one that a request has started. -/
theorem born_step (hs : s.step config l = some s') (ho : o < s'.ops.size) :
    o < s.ops.size ∨ o = s.ops.size ∧ ∃ t e req k, (s.monitors e).operation = none ∧
      s' = ((s.startOperation e req).leave t e k .ok).tick := by
  cases move_of_step hs with
  | call => exact Or.inl ho
  | block | acquire | resume => exact Or.inl (by simpa using ho)
  | @method t e p k r a _ _ ha =>
    rcases (methodMove_of_eq_some ha).ops with ⟨heq, -⟩ | ⟨req, -, hnone, rfl⟩
    · exact Or.inl (heq ▸ ho)
    · simp only [ops_tick, ops_leave, ops_startOperation, Heap.size_alloc] at ho
      rcases Nat.lt_succ_iff_lt_or_eq.1 ho with hlt | heq
      · exact Or.inl hlt
      · exact Or.inr ⟨heq, t, e, req, k, hnone, rfl⟩
  | op => exact Or.inl (by simpa using ho)
  | watch => exact Or.inl ho

theorem StreamCurrent.step (h : StreamCurrent s) (hsound : Sound s) (hvalid : Valid s)
    (hs : s.step config l = some s') : StreamCurrent s' := by
  intro o ho
  rcases born_step hs ho.1 with hlt | ⟨rfl, t, e, req, k, hnone, rfl⟩
  · have hold : Unfinished s o := by
      refine ⟨hlt, ?_⟩
      by_contra hne
      obtain ⟨r, hr⟩ := Option.ne_none_iff_exists'.1 hne
      have := (hsound.settled hs hlt hr).1
      rw [ho.2] at this
      cases this
    have hentry := (op_field_step RunningOperation.entry (fun _ _ ↦ rfl) (fun _ _ ↦ rfl) hs
      hold.1).2
    have hstream := (op_field_step RunningOperation.stream (fun _ _ ↦ rfl) (fun _ _ ↦ rfl) hs
      hold.1).2
    rw [hentry, hstream, ← h o hold]
    rcases hsound.events_step hvalid hs (hvalid.ops o hold.1).entry with heq | hnone
    · exact heq
    · rw [hsound.record_of_unfinished hold] at hnone
      cases hnone
  · simp

/-! ### Signals -/

/-- In this step the task of an operation runs for the first time, and it has been cancelled. -/
def CancelledUnstarted (x : Transition ManagerState Label) : Prop :=
  match x.label with
  | .op o _ => (x.pre.ops o).task.neverRan = true
  | _ => False

instance : DecidablePred CancelledUnstarted
  | ⟨s, .op o _, _⟩ => inferInstanceAs (Decidable ((s.ops o).task.neverRan = true))
  | ⟨_, .call _, _⟩ | ⟨_, .exec .., _⟩ | ⟨_, .watch .., _⟩ => inferInstanceAs (Decidable False)

/-- The done event was set in the step in which operation `o` ended. -/
def Notified (τ : List (Transition ManagerState Label)) (o : ℕ) : Prop :=
  ∃ x ∈ τ, (x.pre.ops o).outcome = none ∧ (x.post.ops o).outcome ≠ none ∧
    x.post.spawnerDone.isSet = true

/-- **The end of operation `o` has been signalled.** -/
structure Signalled (τ : List (Transition ManagerState Label)) (s : ManagerState) (o : ℕ) : Prop where
  /-- The completion event is set. -/
  complete : (s.ops o).complete = true
  /-- The stream that the operation was given is closed. -/
  closed : (s.streams (s.ops o).stream).finished = true
  /-- The done event has been set, if there is one. -/
  notified : (s.ops o).doneEvent = true → Notified τ o

/-- Every operation that has ended has signalled it. -/
def AllSignalled (τ : List (Transition ManagerState Label)) (s : ManagerState) : Prop :=
  ∀ o < s.ops.size, (s.ops o).outcome ≠ none → Signalled τ s o

variable {τ : List (Transition ManagerState Label)}

/-- A signal stays. -/
theorem Signalled.step (h : Signalled τ s o) (hsound : Sound s) (hvalid : Valid s)
    (hs : s.step config l = some s') (ho : o < s.ops.size) (hended : (s.ops o).outcome ≠ none) :
    Signalled (τ ++ [⟨s, l, s'⟩]) s' o := by
  obtain ⟨r, hr⟩ := Option.ne_none_iff_exists'.1 hended
  have hstream := (op_field_step RunningOperation.stream (fun _ _ ↦ rfl) (fun _ _ ↦ rfl) hs ho).2
  have hdone := (op_field_step RunningOperation.doneEvent (fun _ _ ↦ rfl) (fun _ _ ↦ rfl) hs ho).2
  refine ⟨(hsound.settled hs ho hr).2.trans h.complete, ?_, fun hd ↦ ?_⟩
  · rw [hstream]
    exact (hvalid.evolves_step hs).finished _ (hvalid.ops o ho).stream h.closed
  · obtain ⟨x, hx, hrest⟩ := h.notified (hdone ▸ hd)
    exact ⟨x, List.mem_append_left _ hx, hrest⟩

theorem afterOp_of_finalizes {f : OpFrame} (h : s.finalizes o f = true) :
    s.afterOp o f = (s.applyFrame o f).finalize o :=
  if_pos h

/-- **The `finally` block signals the end of its own operation.** -/
theorem Sound.signalled_of_finalizes (h : Sound s) (hstream : StreamCurrent s) {f : OpFrame}
    {r : OpReply} (hunfinished : Unfinished s o) (hended : f.task.ended = true)
    (hfinal : s.finalizes o f = true) :
    Signalled (τ ++ [⟨s, .op o r, (s.afterOp o f).tick⟩]) (s.afterOp o f).tick o := by
  have hstream' : ((s.afterOp o f).ops o).stream = (s.ops o).stream :=
    s.afterOp_field o f RunningOperation.stream (fun _ _ ↦ rfl) (fun _ _ ↦ rfl) o
  have hdone' : ((s.afterOp o f).ops o).doneEvent = (s.ops o).doneEvent :=
    s.afterOp_field o f RunningOperation.doneEvent (fun _ _ ↦ rfl) (fun _ _ ↦ rfl) o
  refine ⟨?_, ?_, fun hd ↦ ⟨_, List.mem_append_right _ List.mem_cons_self, hunfinished.2, ?_, ?_⟩⟩
  · rw [ops_tick, complete_afterOp, hfinal, h.record_of_unfinished hunfinished]
    simp
  · rw [toShared_tick, ops_tick, hstream', ← hstream o hunfinished, afterOp_of_finalizes hfinal]
    have hentry : ((s.applyFrame o f).ops o).entry = (s.ops o).entry :=
      Heap.modify_field RunningOperation.entry s.ops o o (fun x ↦ { x with task := f.task }) rfl
    simp only [finalize, hentry]
    exact congrArg Stream.finished (Heap.modify_self _ _ _)
  · rw [ops_tick, outcome_afterOp, if_pos rfl, ← Option.isSome_iff_ne_none, OpTask.isSome_outcome]
    exact hended
  · rw [ops_tick, hdone'] at hd
    have hd' : ((s.applyFrame o f).ops o).doneEvent = true := by
      rw [← hd]
      exact Heap.modify_field RunningOperation.doneEvent s.ops o o
        (fun x ↦ { x with task := f.task }) rfl
    rw [toShared_tick, afterOp_of_finalizes hfinal]
    simp [finalize, hd', EventFlag.set]

/-- A step that does not run a task that was cancelled unstarted keeps all signals. -/
theorem AllSignalled.step (h : AllSignalled τ s) (hsound : Sound s) (hvalid : Valid s)
    (hstream : StreamCurrent s) (hs : s.step config l = some s')
    (hstarted : ¬ CancelledUnstarted ⟨s, l, s'⟩) : AllSignalled (τ ++ [⟨s, l, s'⟩]) s' := by
  intro o ho hended
  rcases born_step hs ho with hlt | ⟨rfl, t, e, req, k, -, rfl⟩
  · rcases hout : (s.ops o).outcome with _ | r
    · obtain ⟨r, f, rfl, hf, hfended, rfl⟩ := ends_of_outcome hs hlt hout hended
      have hran : (s.ops o).task.neverRan = false := by
        by_contra hne
        exact hstarted (eq_true_of_ne_false hne)
      exact hsound.signalled_of_finalizes hstream ⟨hlt, hout⟩ hfended
        (by simp [finalizes, hfended, hran])
    · have hold : (s.ops o).outcome ≠ none := by simp [hout]
      exact (h o hlt hold).step hsound hvalid hs hlt hold
  · exact absurd (by simp [RunningOperation.outcome]) hended

/-- A task that was cancelled unstarted ends without a signal. -/
theorem CancelledUnstarted.silent (h : CancelledUnstarted ⟨s, l, s'⟩) (hsound : Sound s)
    (hs : s.step config l = some s') :
    ∃ o < s'.ops.size, (s'.ops o).outcome = some .cancelled ∧ (s'.ops o).complete = false := by
  cases move_of_step hs with
  | call | block | acquire | method | resume | watch => exact absurd h id
  | @op o r f _ ho hf =>
    have hran : (s.ops o).task.neverRan = true := h
    have hpc : (s.ops o).task.pc = .created ∧ (s.ops o).task.throwCancel = true := by
      simpa [OpTask.neverRan, and_comm] using hran
    have hf' : f.task.outcome = some .cancelled := by
      simp only [OpFrame.opBlock, opFrame, hpc.2, if_true, OpFrame.cancelled, hpc.1] at hf
      obtain rfl := Option.some.inj hf
      rfl
    refine ⟨o, by simpa using ho, ?_, ?_⟩
    · rw [ops_tick, outcome_afterOp, if_pos rfl, hf']
    · have hnot : (s.ops o).complete = false := by
        by_contra hne
        have hborn : (s.slot (s.ops o).entry).born o := ⟨ho, rfl⟩
        have hsignalled := ((hsound.safe _).signalled o
          ((complete_slot hborn).trans (by simpa using hne))).2
        rw [outcome_slot hborn, outcome_of_opBlock hf] at hsignalled
        cases hsignalled
      rw [ops_tick, complete_afterOp, hnot, finalizes, hran]
      simp

end ManagerState

open ManagerState

variable {config : LabConfig} {τ : List (Transition ManagerState Label)} {s s' : ManagerState}

theorem Run.streamCurrent (hrun : Run config .initial τ s) : s.StreamCurrent := by
  have hall : s.Sound ∧ s.Valid ∧ s.StreamCurrent :=
    hrun.invariant (P := fun s ↦ s.Sound ∧ s.Valid ∧ s.StreamCurrent)
      (fun _ _ _ hP hab ↦ ⟨hP.1.step hab, hP.2.1.step hP.1 hab, hP.2.2.step hP.1 hP.2.1 hab⟩)
      ⟨sound_initial, valid_initial, fun o ho ↦ absurd ho.1 (Nat.not_lt_zero o)⟩
  exact hall.2.2

/-- What has ended without a signal stays without one. -/
theorem Run.silent {o : ℕ} (hrun : Run config s τ s') (hsound : s.Sound) (ho : o < s.ops.size)
    {r : TaskOutcome} (hended : (s.ops o).outcome = some r) (hsilent : (s.ops o).complete = false) :
    o < s'.ops.size ∧ (s'.ops o).outcome = some r ∧ (s'.ops o).complete = false := by
  have hall : s'.Sound ∧ o < s'.ops.size ∧ (s'.ops o).outcome = some r ∧
      (s'.ops o).complete = false := by
    refine hrun.invariant (P := fun s ↦ s.Sound ∧ o < s.ops.size ∧ (s.ops o).outcome = some r ∧
      (s.ops o).complete = false) ?_ ⟨hsound, ho, hended, hsilent⟩
    rintro a l b ⟨hsound, ho, hended, hsilent⟩ hab
    obtain ⟨hended', hcomplete⟩ := hsound.settled hab ho hended
    exact ⟨hsound.step hab, (op_field_step RunningOperation.entry (fun _ _ ↦ rfl)
      (fun _ _ ↦ rfl) hab ho).1, hended', hcomplete.trans hsilent⟩
  exact hall.2

/-- **Completion is signalled exactly when no task is cancelled before its first step.** In any run,
whether or not the monitors are stopped: every operation that has ended has set its completion event,
closed the stream it was given and set its done event, if and only if no task that was cancelled
before its first step has been run. -/
theorem completion_signalled_iff (hrun : Run config .initial τ s) :
    AllSignalled τ s ↔ ∀ x ∈ τ, ¬ CancelledUnstarted x := by
  constructor
  · intro h x hx hcancelled
    obtain ⟨hstep, τ₁, τ₂, rfl, hpre, hpost⟩ := hrun.mem_elim hx
    obtain ⟨o, ho, hended, hsilent⟩ := hcancelled.silent (Run.sound hpre) hstep
    obtain ⟨ho', hended', hsilent'⟩ :=
      Run.silent hpost ((Run.sound hpre).step hstep) ho hended hsilent
    have := (h o ho' (by simp [hended'])).complete
    rw [hsilent'] at this
    cases this
  · refine hrun.history (P := fun τ s ↦ (∀ x ∈ τ, ¬ CancelledUnstarted x) → AllSignalled τ s) ?_ ?_
    · intro τ a l b hτ hP hab hstarted
      refine (hP fun x hx ↦ hstarted x (List.mem_append_left _ hx)).step (Run.sound hτ)
        (Run.valid hτ) (Run.streamCurrent hτ) hab ?_
      exact hstarted _ (List.mem_append_right _ List.mem_cons_self)
    · intro _ o ho
      exact absurd ho (Nat.not_lt_zero o)

/-- A spawn that goes well signals its end. -/
theorem completion_signalled_sample : ∃ τ s, Run Sample.config .initial τ s ∧
    (s.ops 0).outcome = some .returned ∧ Signalled τ s 0 := by
  obtain ⟨τ, s, hrun, hlt, hended, hstarted⟩ := Sample.exists_run
    (Sample.create 0 ++ Sample.build 0 ++ Sample.start 0)
    (fun τ s ↦ 0 < s.ops.size ∧ (s.ops 0).outcome = some .returned ∧
      ∀ x ∈ τ, ¬ CancelledUnstarted x)
    (by decide +kernel)
  exact ⟨τ, s, hrun, hended,
    (completion_signalled_iff hrun).2 hstarted 0 hlt (by rw [hended]; exact Option.some_ne_none _)⟩

/-- A deletion that arrives before the spawn has taken its first step: the spawn ends and its
completion event is never set. -/
theorem completion_not_signalled : ∃ τ s, Run Sample.config .initial τ s ∧ Serving τ ∧
    ¬ AllSignalled τ s := by
  obtain ⟨τ, s, hrun, hserving, hlt, hended, hsilent⟩ := Sample.exists_run
    (Sample.create 0 ++
      [.call (.deleteLab "rachel"), .exec 1 .go, .exec 1 .go, .exec 1 .go, .op 0 .go])
    (fun τ s ↦ Serving τ ∧ 0 < s.ops.size ∧ (s.ops 0).outcome = some .cancelled ∧
      (s.ops 0).complete = false)
    (by decide +kernel)
  refine ⟨τ, s, hrun, hserving, fun h ↦ ?_⟩
  have := (h 0 hlt (by rw [hended]; exact Option.some_ne_none _)).complete
  rw [hsilent] at this
  cases this

/-- **A caller of `wait` is woken once the operation has signalled its end.** -/
theorem ManagerState.wait_enabled {t e o : ℕ} {k : Frame} (hturn : s.Turn t)
    (hpc : (s.calls t).pc = .method e (.inside (.awaitComplete o)) k)
    (hcomplete : (s.ops o).complete = true) : (s.step config (.exec t .go)).isSome = true := by
  have hturn' : (s.running = none ∨ s.running = some t) ∧ t < s.calls.size := hturn
  simp [step, hturn', execCall, hpc, methodBlock, hcomplete]

end Nublado.Lab
