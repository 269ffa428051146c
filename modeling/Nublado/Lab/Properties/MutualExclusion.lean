import Nublado.Lab.Manager.Serving

/-!
# One operation per user

Mutual exclusion of lab operations, and what it rests on in the manager.

* `mutual_exclusion`: an operation that has not ended is the one on record in its user's monitor, so
  there is at most one for each user; and a request that comes second is turned down, with its
  coroutine closed and never run.
* `cancel_hits_observed`: a cancellation reaches the spawn that the call of `delete_lab` behind it saw
  when it decided to cancel.

The slot of a monitor knows nothing about coroutines, so their ownership is an invariant of its own
(`CorosOwned`): a coroutine belongs to one waiting request or to one operation, and only a request
that is turned down closes its coroutine.
-/

namespace Nublado.Lab

namespace ManagerState

/-- The user whose lab operation `o` works on. -/
def ownerOf (s : ManagerState) (o : ℕ) : String := (s.records (s.ops o).entry).username

/-! ### Coroutines -/

end ManagerState

/-- The coroutine of the request with which a call is at, or about to enter, `monitor`. -/
def CallPc.coro : CallPc → Option ℕ
  | .method _ p _ =>
    match p.purpose with
    | some (.monitor req) => some req.coro
    | _ => none
  | _ => none

namespace ManagerState

variable {config : LabConfig} {s s' : ManagerState} {l : Label} {t e : ℕ}

/-- **Who owns a coroutine.** -/
structure CorosOwned (s : ManagerState) : Prop where
  /-- Two calls never ask for the same coroutine. -/
  distinct : ∀ t < s.calls.size, ∀ u < s.calls.size, ∀ c, (s.calls t).pc.coro = some c →
    (s.calls u).pc.coro = some c → t = u
  /-- A coroutine that an operation runs is asked for by nobody. -/
  taken : ∀ o < s.ops.size, ∀ t < s.calls.size, (s.calls t).pc.coro ≠ some (s.ops o).coro
  /-- The coroutine of a request has not been closed. -/
  asked : ∀ t < s.calls.size, ∀ c, (s.calls t).pc.coro = some c → (s.coros c).closed = false
  /-- The coroutine of an operation has not been closed. -/
  run : ∀ o < s.ops.size, (s.coros (s.ops o).coro).closed = false

theorem corosOwned_initial : CorosOwned initial where
  distinct t ht := absurd ht (Nat.not_lt_zero t)
  taken o ho := absurd ho (Nat.not_lt_zero o)
  asked t ht := absurd ht (Nat.not_lt_zero t)
  run o ho := absurd ho (Nat.not_lt_zero o)

/-- What a block does to coroutines: nothing, or it creates one and asks for its operation. -/
def CorosAfter (s : ManagerState) (b : Shared × Next) : Prop :=
  (b.1.coros = s.coros ∧ b.2.pc.coro = none) ∨
    ∃ body, b.1.coros = s.coros.alloc { body := body } ∧ b.2.pc.coro = some s.coros.size

theorem coro_of_enters {n : Next} (h : n.enters = false) : n.pc.coro = none := by
  cases n with
  | enter => cases h
  | _ => rfl

theorem corosAfter_deleteProceed (username : String) (caller : DeleteCaller) :
    CorosAfter s (s.deleteProceed username e caller) := by
  rcases hσ : (s.records e).state with _ | σ
  · rw [deleteProceed_of_none hσ]
    exact Or.inl ⟨rfl, coro_of_enters (enters_deleteReturn _ _)⟩
  · rw [deleteProceed_of_some hσ]
    exact Or.inr ⟨_, rfl, rfl⟩

theorem BlockMove.corosAfter {p : CallerPc} {r : Reply} {b : Shared × Next}
    (hb : BlockMove s p r b)
    (hobserved : ∀ cutoff observed, p = .reconcilePass cutoff observed → DistinctKeys observed) :
    CorosAfter s b := by
  cases hb with
  | quiet hn => exact Or.inl ⟨rfl, coro_of_enters hn⟩
  | ensured | joining | aborting | reaping | stopBegins | stopping => exact Or.inl ⟨rfl, rfl⟩
  | refreshed =>
    refine Or.inl ⟨?_, rfl⟩
    unfold refreshState
    split
    · rfl
    · split <;> rfl
  | spawning | pending => exact Or.inr ⟨_, rfl, rfl⟩
  | deleting => exact corosAfter_deleteProceed _ _
  | passes =>
    refine Or.inl ⟨?_, rfl⟩
    exact reconcilePasses_rule (P := fun sh ↦ sh.coros = s.coros) (fun _ _ _ h ↦ h)
      (fun _ _ _ h _ ↦ h) (hobserved _ _ rfl) rfl
  | reapBegins => exact Or.inl ⟨rfl, rfl⟩
  | reapFailed =>
    refine Or.inl ⟨?_, rfl⟩
    unfold ManagerState.reapFailed
    split <;> rfl

theorem FrameMove.corosAfter {k : Frame} {res : MethodResult} {b : Shared × Next}
    (hb : FrameMove s e k res b) : CorosAfter s b := by
  cases hb with
  | quiet hn | reaped hn => exact Or.inl ⟨rfl, coro_of_enters hn⟩
  | recorded | started => exact Or.inl ⟨rfl, rfl⟩
  | aborted => exact corosAfter_deleteProceed _ _
  | finished =>
    refine Or.inl ⟨?_, coro_of_enters (enters_deleteFinish _ _ _)⟩
    unfold deleteFinish
    dsimp only
    split
    · rfl
    · split <;> rfl

/-- The coroutine a call asks for has been created. -/
theorem Valid.coro_lt (h : Valid s) (ht : t < s.calls.size) {c : ℕ}
    (hc : (s.calls t).pc.coro = some c) : c < s.coros.size := by
  have hpc := h.calls t ht
  unfold CallPc.coro at hc
  split at hc
  · next hcall =>
    rw [hcall] at hpc
    split at hc
    · next req hp =>
      obtain rfl := Option.some.inj hc
      exact (hpc.2.2.2 _ hp).2
    · cases hc
  · cases hc

/-- A call goes where a block leads. -/
theorem CorosOwned.follow (h : CorosOwned s) (hvalid : Valid s) (ht : t < s.calls.size)
    {b : Shared × Next} (hb : CorosAfter s b) : CorosOwned (s.follow t b) := by
  have hlt := fun u hu c ↦ hvalid.coro_lt (t := u) hu (c := c)
  have hops := fun o ho ↦ (hvalid.ops o ho).coro
  obtain ⟨hdistinct, htaken, hasked, hrun⟩ := h
  rcases hb with ⟨hcoros, hpc⟩ | ⟨body, hcoros, hpc⟩
  · refine ⟨?_, ?_, ?_, ?_⟩ <;>
      simp only [calls_follow, size_moved, pc_moved, ops_follow, toShared_follow, hcoros]
    · grind
    · grind
    · grind
    · exact hrun
  · refine ⟨?_, ?_, ?_, ?_⟩ <;>
      simp only [calls_follow, size_moved, pc_moved, ops_follow, toShared_follow, hcoros,
        Heap.alloc_apply]
    · grind
    · grind
    · grind
    · grind

/-- A call that keeps its coroutine, or lets go of it. -/
theorem CorosOwned.moved (h : CorosOwned s) (ht : t < s.calls.size) {pc : CallPc}
    (hcalls : s'.calls = moved s.calls t pc) (hcoros : s'.coros = s.coros)
    (hsize : s'.ops.size = s.ops.size) (hops : ∀ o, (s'.ops o).coro = (s.ops o).coro)
    (hpc : ∀ c, pc.coro = some c → (s.calls t).pc.coro = some c) : CorosOwned s' := by
  obtain ⟨hdistinct, htaken, hasked, hrun⟩ := h
  refine ⟨?_, ?_, ?_, ?_⟩ <;> simp only [hcalls, size_moved, pc_moved, hcoros, hsize, hops]
  · grind
  · grind
  · grind
  · exact hrun

/-- The request of a call is turned down. -/
theorem CorosOwned.conflict (h : CorosOwned s) (ht : t < s.calls.size) {req : Request} {k : Frame}
    (hpc : (s.calls t).pc.coro = some req.coro) :
    CorosOwned ((s.closeCoro req).leave t e k .operationConflict) := by
  obtain ⟨hdistinct, htaken, hasked, hrun⟩ := h
  have hnone : (CallPc.method e (.returned .operationConflict) k).coro = none := rfl
  refine ⟨?_, ?_, ?_, ?_⟩ <;>
    simp only [calls_leave, calls_closeCoro, size_moved, pc_moved, ops_leave, ops_closeCoro,
      toShared_leave, closeCoro, Heap.modify_apply]
  · grind
  · grind
  · grind
  · grind

/-- The request of a call becomes an operation. -/
theorem CorosOwned.started (h : CorosOwned s) (ht : t < s.calls.size) {req : Request} {k : Frame}
    (hpc : (s.calls t).pc.coro = some req.coro) :
    CorosOwned ((s.startOperation e req).leave t e k .ok) := by
  obtain ⟨hdistinct, htaken, hasked, hrun⟩ := h
  have hnone : (CallPc.method e (.returned .ok) k).coro = none := rfl
  refine ⟨?_, ?_, ?_, ?_⟩ <;>
    simp only [calls_leave, calls_startOperation, size_moved, pc_moved, ops_leave,
      ops_startOperation, toShared_leave, toShared_startOperation, Heap.size_alloc,
      Heap.alloc_apply]
  · grind
  · grind
  · grind
  · grind

theorem CorosOwned.tick (h : CorosOwned s) : CorosOwned s.tick :=
  ⟨h.distinct, h.taken, h.asked, h.run⟩

/-- **Ownership is inductive.** -/
theorem CorosOwned.step (h : CorosOwned s) (hsound : Sound s) (hvalid : Valid s)
    (hs : s.step config l = some s') : CorosOwned s' := by
  cases move_of_step hs with
  | @call c hrun =>
    obtain ⟨hdistinct, htaken, hasked, hrunning⟩ := h
    have hnone : (CallPc.caller c.start).coro = none := rfl
    refine CorosOwned.tick ⟨?_, ?_, ?_, hrunning⟩ <;>
      simp only [calls_begin, Heap.size_alloc, Heap.alloc_apply, ops_begin, toShared_begin] <;> grind
  | @block t p r b hturn hpc hb =>
    have hp := hvalid.calls t hturn.2
    rw [hpc] at hp
    exact (h.follow hvalid hturn.2
      ((blockMove_of_eq_some hb).corosAfter (by rintro _ _ rfl; exact hp.2))).tick
  | @acquire t e m k hturn hpc =>
    obtain ⟨p, rfl, hcalls⟩ := s.calls_arrive t e m k
    refine (h.moved hturn.2 hcalls (by rw [toShared_arrive]) (by simp) (by simp) ?_).tick
    intro c hc
    rw [hpc]
    exact hc
  | @method t e p k r a hturn hpc ha =>
    refine CorosOwned.tick ?_
    have hqueue : ∀ m m', p = .queued m → (t, m') ∈ (s.monitors e).lock.waiters → m' = m :=
      fun m m' hm hmem ↦ hsound.purpose_eq hturn.2 (hm ▸ hpc) hmem
    replace ha := methodMove_of_eq_some ha
    obtain ⟨p', hcalls, hpurpose⟩ := ha.calls hqueue
    have hcoro : ∀ c, (CallPc.method e p' k).coro = some c → (s.calls t).pc.coro = some c := by
      intro c hc
      unfold CallPc.coro at hc
      dsimp only at hc
      split at hc
      · next req hreq =>
        rcases hpurpose _ hreq with hp | ⟨o, hp⟩
        · rw [hpc]
          simpa [CallPc.coro, MethodPc.purpose, ← hp] using hc
        · cases hp
      · cases hc
    cases ha with
    | conflict => exact h.conflict hturn.2 (by rw [hpc]; rfl)
    | started => exact h.started hturn.2 (by rw [hpc]; rfl)
    | aborting =>
      refine h.moved hturn.2 hcalls ?_ (by simp) (fun o' ↦ ?_) hcoro
      · rw [toShared_inside]
        unfold cancelTask
        split <;> rfl
      · exact s.cancelTask_field _ RunningOperation.coro (fun _ ↦ rfl) o'
    | woken => exact h.moved hturn.2 hcalls (by rw [toShared_arrive]) (by simp) (by simp) hcoro
    | _ => exact h.moved hturn.2 hcalls rfl rfl (fun _ ↦ rfl) hcoro
  | @resume t e res k hturn hpc =>
    exact (h.follow hvalid hturn.2 (frameMove s e k res).corosAfter).tick
  | @op o r f hrun ho hf =>
    have hcoro : ∀ o', ((s.afterOp o f).ops o').coro = (s.ops o').coro :=
      s.afterOp_field o f RunningOperation.coro (fun _ _ ↦ rfl) fun _ _ ↦ rfl
    obtain ⟨hdistinct, htaken, hasked, hrunning⟩ := h
    refine CorosOwned.tick ⟨?_, ?_, ?_, ?_⟩ <;>
      simpa only [calls_afterOp, size_ops_afterOp, hcoro, coros_afterOp]
  | @watch o r f hrun ho hf =>
    have hcoro : ∀ o', ((s.applyFrame o f).ops o').coro = (s.ops o').coro := fun o' ↦
      Heap.modify_field RunningOperation.coro s.ops o o' (fun x ↦ { x with task := f.task }) rfl
    refine CorosOwned.tick ⟨h.distinct, fun o ho ↦ ?_, h.asked, fun o ho ↦ ?_⟩
    · rw [hcoro]
      exact h.taken o ho
    · rw [hcoro]
      exact h.run o ho

/-- The coroutine has been closed. -/
def Closed (s : ManagerState) (c : ℕ) : Prop := c < s.coros.size ∧ (s.coros c).closed = true

theorem Closed.follow {c : ℕ} (h : Closed s c) {b : Shared × Next} (hb : CorosAfter s b) :
    Closed (s.follow t b) c := by
  obtain ⟨hlt, hclosed⟩ := h
  unfold Closed
  rw [toShared_follow]
  rcases hb with ⟨hcoros, -⟩ | ⟨body, hcoros, -⟩
  · rw [hcoros]
    exact ⟨hlt, hclosed⟩
  · rw [hcoros, Heap.alloc_of_lt _ _ hlt]
    exact ⟨hlt.trans (Nat.lt_succ_self _), hclosed⟩

/-- **A coroutine that has been closed stays closed.** -/
theorem Closed.step {c : ℕ} (h : Closed s c) (hvalid : Valid s) (hs : s.step config l = some s') :
    Closed s' c := by
  cases move_of_step hs with
  | call => exact h
  | @block t p r b hturn hpc hb =>
    have hp := hvalid.calls t hturn.2
    rw [hpc] at hp
    exact Closed.follow h
      ((blockMove_of_eq_some hb).corosAfter (by rintro _ _ rfl; exact hp.2))
  | acquire =>
    unfold Closed
    rw [toShared_tick, toShared_arrive]
    exact h
  | @method t e p k r a hturn hpc ha =>
    cases methodMove_of_eq_some ha with
    | @conflict req o =>
      refine ⟨h.1, ?_⟩
      show ((s.coros.modify req.coro fun c ↦ { c with closed := true }) c).closed = true
      rw [Heap.modify_apply]
      split
      · rfl
      · exact h.2
    | @aborting seen o =>
      unfold Closed
      rw [toShared_tick, toShared_inside]
      unfold cancelTask
      split <;> exact h
    | woken =>
      unfold Closed
      rw [toShared_tick, toShared_arrive]
      exact h
    | _ => exact h
  | @resume t e res k hturn hpc => exact Closed.follow h (frameMove s e k res).corosAfter
  | op =>
    unfold Closed
    rw [toShared_tick, coros_afterOp]
    exact h
  | watch => exact h

/-! ### Mutual exclusion -/

/-- A second request is turned down: `monitor` raises `OperationConflictError`, starts nothing and
closes the coroutine. -/
theorem monitor_conflict (hvalid : Valid s) {r : Reply} {req : Request} {k : Frame} {o : ℕ}
    (hs : s.step config (.exec t r) = some s')
    (hpc : (s.calls t).pc = .method e (.inside (.critical (.monitor req))) k)
    (ho : (s.monitors e).operation = some o) :
    (s'.calls t).pc = .method e (.returned .operationConflict) k ∧ s'.ops = s.ops ∧
      Closed s' req.coro := by
  cases move_of_step hs with
  | block _ hpc' => rw [hpc] at hpc'; cases hpc'
  | acquire _ hpc' => rw [hpc] at hpc'; cases hpc'
  | resume _ hpc' => rw [hpc] at hpc'; cases hpc'
  | method hturn hpc' ha =>
    have hlt : req.coro < s.coros.size := hvalid.coro_lt hturn.2 (by rw [hpc]; rfl)
    rw [hpc] at hpc'
    cases hpc'
    cases methodMove_of_eq_some ha with
    | conflict => exact ⟨by simp, rfl, hlt, by simp [closeCoro]⟩
    | started hnone => rw [ho] at hnone; cases hnone

/-- Operations of one user share a monitor. -/
theorem Served.entry_eq (h : Served s) {o o' : ℕ} (ho : o < s.ops.size) (ho' : o' < s.ops.size)
    (howner : s.ownerOf o = s.ownerOf o') : (s.ops o).entry = (s.ops o').entry := by
  have he := h.found _ (h.valid.ops o ho).entry
  have he' := h.found _ (h.valid.ops o' ho').entry
  unfold ownerOf at howner
  rw [howner, he'] at he
  exact (Option.some.inj he).symm

end ManagerState

open ManagerState

variable {config : LabConfig} {τ : List (Transition ManagerState Label)} {s s' : ManagerState}

theorem Run.corosOwned (hrun : Run config .initial τ s) : s.CorosOwned := by
  have hall : s.Sound ∧ s.Valid ∧ s.CorosOwned :=
    hrun.invariant (P := fun s ↦ s.Sound ∧ s.Valid ∧ s.CorosOwned)
      (fun _ _ _ hP hab ↦ ⟨hP.1.step hab, hP.2.1.step hP.1 hab, hP.2.2.step hP.1 hP.2.1 hab⟩)
      ⟨sound_initial, valid_initial, corosOwned_initial⟩
  exact hall.2.2

/-- A closed coroutine is closed for the rest of the run. -/
theorem Run.closed {c : ℕ} (hrun : Run config s τ s') (hsound : s.Sound) (hvalid : s.Valid)
    (hclosed : s.Closed c) : s'.Closed c := by
  have hall : s'.Sound ∧ s'.Valid ∧ s'.Closed c :=
    hrun.invariant (P := fun s ↦ s.Sound ∧ s.Valid ∧ s.Closed c)
      (fun _ _ _ hP hab ↦ ⟨hP.1.step hab, hP.2.1.step hP.1 hab, hP.2.2.step hP.2.1 hab⟩)
      ⟨hsound, hvalid, hclosed⟩
  exact hall.2.2

/-- **Mutual exclusion.** In every state reached before the monitors are stopped, each user has at
most one operation that has not ended, and it is the one on record in the monitor that the mapping
of users leads to. Whenever `monitor` finds another operation on record it raises
`OperationConflictError`, and the coroutine it was given is never run by any operation. -/
theorem mutual_exclusion (hrun : Run config .initial τ s) (hserving : Serving τ) :
    (∀ o o', s.Unfinished o → s.Unfinished o' → s.ownerOf o = s.ownerOf o' → o = o') ∧
    (∀ o, s.Unfinished o →
      ∃ e, s.labs.lookup (s.ownerOf o) = some e ∧ (s.monitors e).operation = some o) ∧
    ∀ x ∈ τ, ∀ t r e req k o, x.label = .exec t r →
      (x.pre.calls t).pc = .method e (.inside (.critical (.monitor req))) k →
      (x.pre.monitors e).operation = some o →
        (x.post.calls t).pc = .method e (.returned .operationConflict) k ∧
        x.post.ops = x.pre.ops ∧ ∀ o' < s.ops.size, (s.ops o').coro ≠ req.coro := by
  have hserved := hrun.served hserving
  refine ⟨?_, ?_, ?_⟩
  · intro o o' ho ho' howner
    have hrec := hserved.sound.record_of_unfinished ho
    rw [hserved.entry_eq ho.1 ho'.1 howner, hserved.sound.record_of_unfinished ho'] at hrec
    exact (Option.some.inj hrec).symm
  · intro o ho
    exact ⟨_, hserved.found _ (hserved.valid.ops o ho.1).entry, hserved.sound.record_of_unfinished ho⟩
  · intro x hx t r e req k o hl hpc ho
    obtain ⟨hstep, τ₁, τ₂, rfl, hpre, hpost⟩ := hrun.mem_elim hx
    have hto : Run config .initial (τ₁ ++ [⟨x.pre, x.label, x.post⟩]) x.post :=
      hpre.append (.single hstep)
    rw [hl] at hstep
    obtain ⟨hpc', hops, hclosed⟩ := monitor_conflict (Run.valid hpre) hstep hpc ho
    refine ⟨hpc', hops, fun o' ho' hcoro ↦ ?_⟩
    have hgone := Run.closed hpost hto.sound hto.valid hclosed
    have hopen := hrun.corosOwned.run o' ho'
    rw [hcoro, hgone.2] at hopen
    cases hopen

/-- A run with a spawn in progress. -/
theorem mutual_exclusion_sample : ∃ τ s, Run Sample.config .initial τ s ∧ s.Unfinished 0 ∧
    ∃ e, s.labs.lookup (s.ownerOf 0) = some e ∧ (s.monitors e).operation = some 0 := by
  obtain ⟨τ, s, hrun, hserving, hunfinished⟩ := Sample.exists_run (Sample.create 0)
    (fun τ s ↦ Serving τ ∧ s.Unfinished 0) (by decide +kernel)
  exact ⟨τ, s, hrun, hunfinished, (mutual_exclusion hrun hserving).2.1 0 hunfinished⟩

/-! ### Cancellations -/

namespace ManagerState

/-- Call `t` decided to cancel operation `o` in the transition `y`: it was at the beginning of
`delete_lab` and saw that spawn in progress. -/
def Observed (y : Transition ManagerState Label) (t e o : ℕ) (k : Frame) : Prop :=
  ∃ username caller, k = .deleteAborted username caller ∧ y.label = .exec t .go ∧
    (y.pre.calls t).pc = .caller (.deleteStart username caller) ∧
    (y.pre.monitors e).operation = some o ∧ (y.pre.ops o).operation = .spawn ∧
    (y.post.calls t).pc = .method e (.acquire (.cancel (some o))) k

/-- Operation `o` is a spawn that call `t` decided to cancel during the run. -/
def Aimed (τ : List (Transition ManagerState Label)) (s : ManagerState) (t e o : ℕ) (k : Frame) :
    Prop :=
  o < s.ops.size ∧ (s.ops o).operation = .spawn ∧ ∃ y ∈ τ, Observed y t e o k

/-- Every call that is going to cancel an operation has observed it. -/
def CancelsObserved (τ : List (Transition ManagerState Label)) (s : ManagerState) : Prop :=
  ∀ t < s.calls.size, ∀ e p k o, (s.calls t).pc = .method e p k →
    p.purpose = some (.cancel (some o)) → Aimed τ s t e o k

/-- What was observed stays so. -/
theorem Aimed.step {t e o : ℕ} {k : Frame} (h : Aimed τ s t e o k) {l : Label}
    (hs : s.step config l = some s') : Aimed (τ ++ [⟨s, l, s'⟩]) s' t e o k := by
  obtain ⟨ho, hspawn, y, hy, hobs⟩ := h
  obtain ⟨ho', hop⟩ := op_field_step RunningOperation.operation (fun _ _ ↦ rfl) (fun _ _ ↦ rfl) hs ho
  exact ⟨ho', hop.trans hspawn, y, List.mem_append_left _ hy, hobs⟩

/-- One call moves, and what it is going to cancel was observed. -/
theorem CancelsObserved.moved {l : Label} {t : ℕ} {pc : CallPc} (h : CancelsObserved τ s)
    (hs : s.step config l = some s') (hcalls : s'.calls = moved s.calls t pc)
    (hpc : ∀ e p k o, pc = .method e p k → p.purpose = some (.cancel (some o)) →
      Aimed (τ ++ [⟨s, l, s'⟩]) s' t e o k) : CancelsObserved (τ ++ [⟨s, l, s'⟩]) s' := by
  intro u hu e p k o hcall hp
  rw [hcalls, size_moved] at hu
  rw [hcalls, pc_moved] at hcall
  split at hcall
  · next hut =>
    subst hut
    exact hpc e p k o hcall hp
  · exact (h u hu e p k o hcall hp).step hs

/-- A block leads to a cancellation only from the beginning of `delete_lab`, with a spawn in
progress. -/
theorem BlockMove.aborting_of_cancel {p : CallerPc} {r : Reply} {b : Shared × Next}
    (hb : BlockMove s p r b) {e o : ℕ} {k : Frame} (h : b.2 = .enter e (.cancel (some o)) k) :
    r = .go ∧ ∃ username caller, k = .deleteAborted username caller ∧
      p = .deleteStart username caller ∧ (s.monitors e).operation = some o ∧
      (s.ops o).operation = .spawn := by
  cases hb with
  | quiet hn => exact absurd h (Next.ne_enter hn _ _ _)
  | ensured | refreshed | spawning | joining | passes | pending | reapBegins | reaping
  | reapFailed | stopBegins | stopping => cases h
  | aborting _ _ ho hspawn =>
    obtain ⟨rfl, hm, rfl⟩ := Next.enter.inj h
    cases hm
    exact ⟨rfl, _, _, rfl, rfl, ho, hspawn⟩
  | @deleting username caller e' σ _ hσ _ =>
    rw [deleteProceed_of_some hσ] at h
    cases h

/-- The return from a monitor's method never leads to a cancellation of `delete_lab`. -/
theorem FrameMove.ne_cancel {e' : ℕ} {k' : Frame} {res : MethodResult} {b : Shared × Next}
    (hb : FrameMove s e' k' res b) (e o : ℕ) (k : Frame) :
    b.2 ≠ .enter e (.cancel (some o)) k := by
  intro h
  cases hb with
  | quiet hn | reaped hn => exact Next.ne_enter hn _ _ _ h
  | recorded | started => cases h
  | aborted =>
    rcases hσ : (s.records e').state with _ | σ
    · rw [deleteProceed_of_none hσ] at h
      exact Next.ne_enter (enters_deleteReturn _ _) _ _ _ h
    · rw [deleteProceed_of_some hσ] at h
      cases h
  | finished => exact Next.ne_enter (enters_deleteFinish _ _ _) _ _ _ h

/-- A program point that a block leads to, and at which a monitor's method is called. -/
theorem Next.eq_enter_of_pc {n : Next} {e : ℕ} {p : MethodPc} {k : Frame} {m : Method}
    (hpc : n.pc = .method e p k) (hp : p.purpose = some m) : n = .enter e m k := by
  cases n with
  | enter =>
    cases hpc
    cases hp
    rfl
  | _ => cases hpc

theorem CancelsObserved.step (h : CancelsObserved τ s) (hsound : Sound s) {l : Label}
    (hs : s.step config l = some s') : CancelsObserved (τ ++ [⟨s, l, s'⟩]) s' := by
  have hkeep : ∀ t < s.calls.size, ∀ e p k o, (s.calls t).pc = .method e p k →
      p.purpose = some (.cancel (some o)) → Aimed (τ ++ [⟨s, l, s'⟩]) s' t e o k :=
    fun t ht e p k o hpc hp ↦ (h t ht e p k o hpc hp).step hs
  cases move_of_step hs with
  | @call c hrun =>
    intro u hu e p k o hcall hp
    simp only [calls_tick, calls_begin, Heap.size_alloc, Heap.alloc_apply] at hu hcall
    split at hcall
    · cases hcall
    · exact hkeep u (by omega) e p k o hcall hp
  | @block t p r b hturn hpc hb =>
    refine h.moved hs (calls_follow _ _ _) fun e p' k o hcall hp ↦ ?_
    have henter := Next.eq_enter_of_pc hcall hp
    obtain ⟨rfl, username, caller, rfl, rfl, ho, hspawn⟩ :=
      (blockMove_of_eq_some hb).aborting_of_cancel henter
    have hborn := (hsound.safe e).recorded o ho
    refine ⟨by simpa using hborn.1, by simpa using hspawn, _,
      List.mem_append_right _ (List.mem_singleton_self _), username, caller, rfl, rfl, hpc, ho,
      hspawn, ?_⟩
    simp [henter, Next.pc]
  | @acquire t e m k hturn hpc =>
    obtain ⟨p, rfl, hcalls⟩ := s.calls_arrive t e m k
    refine h.moved hs hcalls fun e' p' k' o hcall hp ↦ ?_
    cases hcall
    exact hkeep t hturn.2 e _ k o hpc hp
  | @method t e p k r a hturn hpc ha =>
    obtain ⟨p', hcalls, hpurpose⟩ := (methodMove_of_eq_some ha).calls fun m m' hm hmem ↦
      hsound.purpose_eq hturn.2 (hm ▸ hpc) hmem
    refine h.moved hs hcalls fun e' p'' k' o hcall hp ↦ ?_
    cases hcall
    rcases hpurpose _ hp with hp' | ⟨o', hp'⟩
    · exact hkeep t hturn.2 e _ k o hpc (congrArg some hp'.symm)
    · cases hp'
  | @resume t e res k hturn hpc =>
    refine h.moved hs (calls_follow _ _ _) fun e p' k o hcall hp ↦ ?_
    exact absurd (Next.eq_enter_of_pc hcall hp) ((frameMove s _ _ _).ne_cancel _ _ _)
  | op =>
    intro u hu e p k o hcall hp
    rw [calls_tick, calls_afterOp] at hu hcall
    exact hkeep u hu e p k o hcall hp
  | watch => exact hkeep

end ManagerState

theorem Run.cancelsObserved (hrun : Run config .initial τ s) : CancelsObserved τ s := by
  refine hrun.history (fun τ a l b hτ hP hab ↦ hP.step (Run.sound hτ) hab) ?_
  intro t ht
  exact absurd ht (Nat.not_lt_zero t)

/-- Before the monitors are stopped, every cancellation names an operation. -/
theorem ManagerState.Served.cancel_named (h : Served s) {t e : ℕ} {p : SlotPc Request ℕ} {k : Frame}
    {seen : Option ℕ} (ht : t < s.calls.size) (hpc : (s.calls t).pc = .method e (.inside p) k)
    (hp : p.purpose = .cancel seen) : ∃ o, seen = some o := by
  have hfits := h.sound.control.fits t ht e p k hpc
  rw [hp] at hfits
  cases seen with
  | some o => exact ⟨o, rfl⟩
  | none =>
    obtain ⟨rest, rfl⟩ : ∃ rest, k = .stopped rest := by
      cases k with
      | stopped rest => exact ⟨rest, rfl⟩
      | _ => exact absurd hfits id
    have hcall := h.valid.calls t ht
    rw [hpc] at hcall
    exact absurd hcall.2.1 (h.noStop t ht)

/-- **A cancellation hits the spawn its caller observed.** Before the monitors are stopped, the task
that a step of `cancel` cancels is that of a spawn which is still on record, and the call of
`delete_lab` behind it saw this very operation in progress when it decided to cancel. -/
theorem cancel_hits_observed (hrun : Run config .initial τ s) (hserving : Serving τ) {t e o : ℕ}
    {seen : Option ℕ} {k : Frame} {r : Reply} (hs : s.step config (.exec t r) = some s')
    (hpc : (s.calls t).pc = .method e (.inside (.critical (.cancel seen))) k)
    (hcancelled : (s'.ops o).task ≠ (s.ops o).task) :
    (s.monitors e).operation = some o ∧ (s.ops o).operation = .spawn ∧
      ∃ y ∈ τ, Observed y t e o k := by
  have hserved := hrun.served hserving
  cases move_of_step hs with
  | block _ hpc' => rw [hpc] at hpc'; cases hpc'
  | acquire _ hpc' => rw [hpc] at hpc'; cases hpc'
  | resume _ hpc' => rw [hpc] at hpc'; cases hpc'
  | @method _ _ _ _ _ a hturn hpc' ha =>
    obtain ⟨o', rfl⟩ := hserved.cancel_named hturn.2 hpc rfl
    rw [hpc] at hpc'
    cases hpc'
    cases methodMove_of_eq_some ha with
    | idle => exact absurd rfl hcancelled
    | @aborting _ o'' ho =>
      -- the task that has changed is the one on record, and the line is in order
      have hsame : o = o'' := by
        by_contra hne
        exact hcancelled (congrArg RunningOperation.task (s.ops_cancelTask_of_ne _ hne))
      subst hsame
      have haimed := (hserved.ordered e).cancel_hits_seen (hserved.sound.safe e)
        (pc_slot hturn.2 hpc) ho
      subst haimed
      obtain ⟨-, hspawn, hobs⟩ := hrun.cancelsObserved t hturn.2 e _ k o' hpc rfl
      exact ⟨ho, hspawn, hobs⟩

/-- A run in which `delete_lab` is about to cancel a spawn. -/
theorem cancel_hits_observed_sample : ∃ τ s s', Run Sample.config .initial τ s ∧
    s.step Sample.config (.exec 1 .go) = some s' ∧ (s'.ops 0).task ≠ (s.ops 0).task ∧
    ∃ y ∈ τ, Observed y 1 0 0 (.deleteAborted "rachel" .request) := by
  obtain ⟨τ, s, hrun, hserving, hpc, hstep⟩ := Sample.exists_run
    (Sample.create 0 ++ [.op 0 .go, .call (.deleteLab "rachel"), .exec 1 .go, .exec 1 .go])
    (fun τ s ↦ Serving τ ∧
      (s.calls 1).pc = .method 0 (.inside (.critical (.cancel (some 0))))
        (.deleteAborted "rachel" .request) ∧
      (s.step Sample.config (.exec 1 .go)).any (fun s' ↦ (s'.ops 0).task ≠ (s.ops 0).task) = true)
    (by decide +kernel)
  obtain ⟨s', hs, htask⟩ := (Option.any_eq_true _ _).1 hstep
  have hne : (s'.ops 0).task ≠ (s.ops 0).task := of_decide_eq_true htask
  exact ⟨τ, s, s', hrun, hs, hne, (cancel_hits_observed hrun hserving hs hpc hne).2.2⟩

end Nublado.Lab
