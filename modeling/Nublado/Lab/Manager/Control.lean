import Nublado.Lab.Manager.Moves

/-!
# Where calls can be

`Control` collects what can be said about the program points of the calls alone:

* a call is at a *transient* point only while it is the one that is running, so what was true when
  the current segment began is still true there (`Control.transient`);
* a call is inside a method of the monitor only for a purpose its caller has there
  (`Control.fits`);
* a call asks for `monitor` only when no operation is on record, and for `cancel` only when the
  operation it names is on record and is a spawn (`Control.asks`): both were checked in the same
  segment;
* `delete_lab` continues after a cancellation only when no operation is on record
  (`Control.aborted`).

The invariant holds in every run, also when `stop_monitor_tasks` is called.
-/

namespace Nublado.Lab

namespace CallerPc

/-- The program points at which calls begin. -/
def begins : CallerPc → Bool
  | .createStart .. | .deleteStart _ .request | .reconcileStart | .reapStart | .stopStart => true
  | _ => false

end CallerPc

namespace CallPc

/-- Whether a call passes this point without suspending. -/
def transient : CallPc → Bool
  | .caller p => !p.suspends && !p.begins
  | .method _ (.acquire _) _ | .method _ (.inside (.critical _)) _ | .method _ (.returned _) _ => true
  | _ => false

end CallPc

theorem Call.transient_start (c : Call) : (CallPc.caller c.start).transient = false := by
  cases c <;> rfl

/-- The purposes for which a caller that continues at a frame uses the monitor. -/
def Frame.Fits : Frame → Method → Prop
  | .createStarted σ, .monitor req =>
    req.operation = .spawn ∧ req.state = σ ∧ req.doneEvent = true
  | .deleteStarted .., .monitor req => req.operation = .delete ∧ req.doneEvent = false
  | .pendingStarted _, .monitor req => req.operation = .spawn ∧ req.doneEvent = true
  | .deleteJoined .., .wait | .deleteAwaited .., .wait | .reaped _, .wait => True
  | .deleteJoined .., .reap _ | .deleteAwaited .., .reap _ | .reaped _, .reap _ => True
  | .deleteAborted .., .cancel (some _) => True
  | .stopped _, .cancel none => True
  | _, _ => False

/-- A caller that may wait may also collect what it waited for. -/
theorem Frame.Fits.reap {k : Frame} {o : ℕ} (h : k.Fits .wait) : k.Fits (.reap o) := by
  cases k <;> exact h

namespace ManagerState

variable {config : LabConfig} {s s' : ManagerState} {l : Label} {t e : ℕ}

/-- What a caller has checked when it asks for the lock of monitor `e`. -/
def Asks (s : ManagerState) (e : ℕ) : Method → Prop
  | .monitor _ => (s.monitors e).operation = none
  | .cancel (some o) => (s.monitors e).operation = some o ∧ (s.ops o).operation = .spawn
  | .cancel none | .wait => True
  | .reap _ => False

/-- **Where calls can be.** -/
structure Control (s : ManagerState) : Prop where
  /-- Only the running call is at a transient point. -/
  transient : ∀ t < s.calls.size, (s.calls t).pc.transient = true → s.running = some t
  /-- A call uses the monitor for its caller's purpose. -/
  fits : ∀ t < s.calls.size, ∀ e p k, (s.calls t).pc = .method e (.inside p) k → k.Fits p.purpose
  /-- A call that asks for the lock has checked what `Asks` says. -/
  asks : ∀ t < s.calls.size, ∀ e m k, (s.calls t).pc = .method e (.acquire m) k →
    k.Fits m ∧ s.Asks e m
  /-- After a cancellation no operation is on record. -/
  aborted : ∀ t < s.calls.size, ∀ e username caller,
    (s.calls t).pc = .method e (.returned .ok) (.deleteAborted username caller) →
      (s.monitors e).operation = none

theorem control_initial : Control initial where
  transient t ht := absurd ht (Nat.not_lt_zero t)
  fits t ht := absurd ht (Nat.not_lt_zero t)
  asks t ht := absurd ht (Nat.not_lt_zero t)
  aborted t ht := absurd ht (Nat.not_lt_zero t)

/-! ### Where blocks lead -/

/-- A call keeps running until it reaches a point where it can be suspended. -/
theorem running_follow_of_transient {b : Shared × Next} (h : b.2.pc.transient = true) :
    (s.follow t b).running = some t := by
  unfold follow
  split <;> next hb => simp_all [Next.pc, CallPc.transient]

/-- `delete_lab` asks for `monitor` when no operation is on record. -/
theorem deleteProceed_asks {username : String} {caller : DeleteCaller}
    (hnone : (s.monitors e).operation = none) {e' : ℕ} {m : Method} {k : Frame}
    (h : (s.deleteProceed username e caller).2 = .enter e' m k) : k.Fits m ∧ s.Asks e' m := by
  rcases hσ : (s.records e).state with _ | σ
  · rw [deleteProceed_of_none hσ] at h
    exact absurd h (Next.ne_enter (enters_deleteReturn _ _) _ _ _)
  · rw [deleteProceed_of_some hσ] at h
    obtain ⟨rfl, rfl, rfl⟩ := Next.enter.inj h
    exact ⟨⟨rfl, rfl⟩, hnone⟩

/-- A block of the manager's own methods asks for a lock after the checks that `Asks` names. -/
theorem BlockMove.asks {p : CallerPc} {r : Reply} {b : Shared × Next} (hb : BlockMove s p r b)
    {m : Method} {k : Frame} (h : b.2 = .enter e m k) : k.Fits m ∧ s.Asks e m := by
  cases hb with
  | quiet hn => exact absurd h (Next.ne_enter hn _ _ _)
  | ensured | refreshed | passes | reapFailed | stopBegins => cases h
  | reapBegins => cases h
  | spawning _ hnone _ =>
    obtain ⟨rfl, rfl, rfl⟩ := Next.enter.inj h
    exact ⟨⟨rfl, rfl, rfl⟩, hnone⟩
  | joining | reaping | stopping =>
    obtain ⟨rfl, rfl, rfl⟩ := Next.enter.inj h
    exact ⟨trivial, trivial⟩
  | aborting _ _ ho hspawn =>
    obtain ⟨rfl, rfl, rfl⟩ := Next.enter.inj h
    exact ⟨trivial, ho, hspawn⟩
  | deleting _ _ hnone => exact deleteProceed_asks hnone h
  | pending _ _ hnone =>
    obtain ⟨rfl, rfl, rfl⟩ := Next.enter.inj h
    exact ⟨⟨rfl, rfl⟩, hnone⟩

/-- So does a call that continues after a monitor's method. -/
theorem FrameMove.asks {e' : ℕ} {k' : Frame} {res : MethodResult} {b : Shared × Next}
    (hb : FrameMove s e' k' res b)
    (haborted : ∀ username caller, k' = .deleteAborted username caller → res = .ok →
      (s.monitors e').operation = none)
    {m : Method} {k : Frame} (h : b.2 = .enter e m k) : k.Fits m ∧ s.Asks e m := by
  cases hb with
  | quiet hn | reaped hn => exact absurd h (Next.ne_enter hn _ _ _)
  | recorded => cases h
  | aborted => exact deleteProceed_asks (haborted _ _ rfl rfl) h
  | started =>
    obtain ⟨rfl, rfl, rfl⟩ := Next.enter.inj h
    exact ⟨trivial, trivial⟩
  | finished => exact absurd h (Next.ne_enter (enters_deleteFinish _ _ _) _ _ _)

/-! ### Control is inductive -/

theorem Asks.congr {m : Method} (h : s.Asks e m)
    (hmonitor : (s'.monitors e).operation = (s.monitors e).operation)
    (hops : ∀ o, (s'.ops o).operation = (s.ops o).operation) : s'.Asks e m := by
  cases m with
  | monitor _ => exact hmonitor.trans h
  | wait => trivial
  | reap o => exact h
  | cancel seen =>
    cases seen with
    | none => trivial
    | some o => exact ⟨hmonitor.trans h.1, (hops o).trans h.2⟩

/-- Nobody is at a transient point while no call is running. -/
theorem Control.not_transient (h : Control s) (hrun : s.running = none) {u : ℕ}
    (hu : u < s.calls.size) : (s.calls u).pc.transient = false := by
  by_contra hne
  have := h.transient u hu (by simpa using hne)
  simp [hrun] at this

/-- While call `t` may run, nobody else is at a transient point. -/
theorem Control.eq_of_transient (h : Control s) (hturn : s.Turn t) {u : ℕ} (hu : u < s.calls.size)
    (hpc : (s.calls u).pc.transient = true) : u = t := by
  have hrun := h.transient u hu hpc
  rcases hturn.1 with hnone | hsome
  · simp [hrun] at hnone
  · exact Option.some.inj (hrun.symm.trans hsome)

/-- **The step of one call.** Everything is known about the call that moves, and the other calls are
not at transient points. -/
theorem Control.moved (h : Control s) (hturn : s.Turn t) {pc : CallPc}
    (hcalls : s'.calls = moved s.calls t pc)
    (hrun : pc.transient = true → s'.running = some t)
    (hfits : ∀ e p k, pc = .method e (.inside p) k → k.Fits p.purpose)
    (hasks : ∀ e m k, pc = .method e (.acquire m) k → k.Fits m ∧ s'.Asks e m)
    (haborted : ∀ e username caller,
      pc = .method e (.returned .ok) (.deleteAborted username caller) →
        (s'.monitors e).operation = none) : Control s' := by
  have hother : ∀ u < s.calls.size, u ≠ t → (s.calls u).pc.transient = false := by
    intro u hu hne
    by_contra hpc
    exact hne (h.eq_of_transient hturn hu (by simpa using hpc))
  refine ⟨?_, ?_, ?_, ?_⟩
  all_goals
    intro u hu
    rw [hcalls, size_moved] at hu
    rw [hcalls, pc_moved]
    split
  · next hut => exact hut ▸ hrun
  · next hne => exact fun hpc ↦ absurd hpc (by simp [hother u hu hne])
  · exact hfits
  · exact h.fits u hu
  · exact hasks
  · next hne =>
    intro e m k hpc
    have := hother u hu hne
    simp [hpc, CallPc.transient] at this
  · exact haborted
  · next hne =>
    intro e username caller hpc
    have := hother u hu hne
    simp [hpc, CallPc.transient] at this

/-- A step that moves no call. -/
theorem Control.unmoved (h : Control s) (hrun : s.running = none) (hcalls : s'.calls = s.calls) :
    Control s' := by
  have hidle : ∀ u < s.calls.size, (s.calls u).pc.transient = false := fun u hu ↦
    h.not_transient hrun hu
  refine ⟨?_, ?_, ?_, ?_⟩
  · intro u hu hpc
    rw [hcalls] at hu hpc
    simp [hidle u hu] at hpc
  · rw [hcalls]
    exact h.fits
  · intro u hu e m k hpc
    rw [hcalls] at hu hpc
    have := hidle u hu
    simp [hpc, CallPc.transient] at this
  · intro u hu e username caller hpc
    rw [hcalls] at hu hpc
    have := hidle u hu
    simp [hpc, CallPc.transient] at this

/-- A new call is at the beginning of its method. -/
theorem Control.begin (h : Control s) (hrun : s.running = none) (c : Call) :
    Control (s.begin c) := by
  have hidle : ∀ u < s.calls.size, (s.calls u).pc.transient = false := fun u hu ↦
    h.not_transient hrun hu
  have hnew := c.transient_start
  have hfits := h.fits
  refine ⟨?_, ?_, ?_, ?_⟩
  all_goals
    intro u hu
    simp only [calls_begin, Heap.size_alloc, Heap.alloc_apply] at hu ⊢
    split
    · simp [hnew]
    · have := hidle u (by omega)
      grind [CallPc.transient]

theorem Control.tick (h : Control s) : Control s.tick :=
  ⟨h.transient, h.fits, h.asks, h.aborted⟩

/-- A call asks for a lock. -/
theorem Control.arrive (h : Control s) (hturn : s.Turn t) {m : Method} {k : Frame}
    (hfit : k.Fits m) : Control (s.arrive t e m k) := by
  rcases hfree : (s.monitors e).lock.free with _ | _
  · rw [arrive_of_not_free s t e hfree]
    refine h.moved hturn (calls_inside _ _ _ _ _ _) (by simp [CallPc.transient]) ?_ (by simp) (by simp)
    rintro e' p k' ⟨⟩
    exact hfit
  · rw [arrive_of_free s t e hfree]
    refine h.moved hturn (calls_inside _ _ _ _ _ _) (fun _ ↦ rfl) ?_ (by simp) (by simp)
    rintro e' p k' ⟨⟩
    exact hfit

/-- A method of the monitor returns. -/
theorem Control.leave (h : Control s) (hturn : s.Turn t) {a : ManagerState} {k : Frame}
    {res : MethodResult} (hcalls : a.calls = s.calls)
    (haborted : ∀ username caller, k = .deleteAborted username caller → res = .ok →
      (a.monitors e).operation = none) : Control (a.leave t e k res) := by
  refine h.moved hturn (by rw [calls_leave, hcalls]) (fun _ ↦ rfl) (by simp) (by simp) ?_
  rintro e' username caller ⟨⟩
  simpa using haborted username caller rfl rfl

/-- A call moves on inside a method, for the same purpose. -/
theorem Control.inside (h : Control s) (hturn : s.Turn t) {a : ManagerState}
    {p : SlotPc Request ℕ} {k : Frame} {r : Option ℕ} (hcalls : a.calls = s.calls)
    (hrun : (CallPc.method e (.inside p) k).transient = true → r = some t)
    (hfit : k.Fits p.purpose) : Control (a.inside t e p k r) := by
  refine h.moved hturn (by rw [calls_inside, hcalls]) hrun ?_ (by simp) (by simp)
  rintro e' p' k' ⟨⟩
  exact hfit

/-- `cancel` clears the record. -/
theorem operation_clearOperation_of_fits {k : Frame} {m : Method} {o : ℕ} (hfit : k.Fits m)
    {username : String} {caller : DeleteCaller} (hk : k = .deleteAborted username caller) :
    ((s.clearOperation e m o).monitors e).operation = none := by
  subst hk
  cases m with
  | cancel seen => simp [clearOperation]
  | _ => exact absurd hfit (by simp [Frame.Fits])

/-- The step inside a method. -/
theorem Control.method (h : Control s) (hturn : s.Turn t) {p : SlotPc Request ℕ} {k : Frame}
    {r : Reply} {a : ManagerState} (hpc : (s.calls t).pc = .method e (.inside p) k)
    (hqueue : ∀ m m', p = .queued m → (t, m') ∈ (s.monitors e).lock.waiters → m' = m)
    (ha : MethodMove s t e k p r a) : Control a := by
  have hfit := h.fits t hturn.2 e p k hpc
  cases ha with
  | granted hh hw =>
    refine h.inside hturn rfl (fun _ ↦ rfl) ?_
    obtain rfl := hqueue _ _ rfl (hw ▸ List.mem_cons_self)
    exact hfit
  | conflict => exact h.leave hturn rfl nofun
  | started =>
    refine h.leave hturn rfl ?_
    rintro _ _ rfl
    exact absurd hfit id
  | absent => exact h.leave hturn rfl nofun
  | joined => exact h.inside hturn rfl nofun hfit.reap
  | collecting => exact h.inside hturn rfl nofun hfit
  | idle hnone => exact h.leave hturn rfl fun _ _ _ _ ↦ hnone
  | aborting => exact h.inside hturn (calls_cancelTask _ _) nofun hfit
  | woken => exact h.arrive hturn hfit
  | collected | reported =>
    exact h.leave hturn rfl fun _ _ hk _ ↦ operation_clearOperation_of_fits hfit hk
  | reporting => exact h.inside hturn rfl nofun hfit
  | interrupted => exact h.leave hturn rfl nofun

/-- A call follows a block. -/
theorem Control.follow (h : Control s) (hturn : s.Turn t) {b : Shared × Next}
    (hasks : ∀ e m k, b.2 = .enter e m k → k.Fits m ∧ s.Asks e m) : Control (s.follow t b) := by
  refine h.moved hturn (calls_follow _ _ _) running_follow_of_transient ?_ ?_ ?_
  · intro e p k hpc
    cases hb : b.2 <;> simp [hb, Next.pc] at hpc
  · intro e m k hpc
    have henter : b.2 = .enter e m k := by
      cases hb : b.2 <;> simp_all [Next.pc]
    obtain ⟨hfit, ha⟩ := hasks e m k henter
    exact ⟨hfit, ha.congr (by rw [monitors_follow]) (by simp)⟩
  · intro e username caller hpc
    cases hb : b.2 <;> simp [hb, Next.pc] at hpc

/-- **Control is inductive**, together with the fact that every waiting task is queued for its own
purpose. -/
theorem Control.step (h : Control s)
    (hqueue : ∀ t e m m' k, (s.calls t).pc = .method e (.inside (.queued m)) k → t < s.calls.size →
      (t, m') ∈ (s.monitors e).lock.waiters → m' = m)
    (hs : s.step config l = some s') : Control s' := by
  cases move_of_step hs with
  | call hrun => exact (h.begin hrun _).tick
  | block hturn hpc hb =>
    exact (h.follow hturn fun _ _ _ ↦ (blockMove_of_eq_some hb).asks).tick
  | acquire hturn hpc => exact (h.arrive hturn (h.asks _ hturn.2 _ _ _ hpc).1).tick
  | @method t e p k r a hturn hpc ha =>
    refine (h.method hturn hpc ?_ (methodMove_of_eq_some ha)).tick
    rintro m m' rfl hmem
    exact hqueue _ _ _ _ _ hpc hturn.2 hmem
  | resume hturn hpc =>
    refine (h.follow hturn fun _ _ _ ↦ (frameMove s _ _ _).asks ?_).tick
    rintro username caller rfl rfl
    exact h.aborted _ hturn.2 _ _ _ hpc
  | op hrun _ _ => exact (h.unmoved hrun (calls_afterOp _ _ _)).tick
  | watch hrun _ _ => exact Control.tick (h.unmoved hrun rfl)

end ManagerState

end Nublado.Lab
