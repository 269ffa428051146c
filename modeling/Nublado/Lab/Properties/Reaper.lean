import Nublado.Lab.Manager.Cancellation

/-!
# The reaper

`reap_spawners` walks over the mapping of users and collects the operations that have ended. Two things
could end its loop.

* Python raises an exception when a dictionary changes size while it is iterated over. The reaper may
  be suspended in the middle of a pass, and a user who is added to the mapping in the meantime makes it
  fail when it goes on. `reaper_survives_iff` says that this is exactly when it fails.
* `wait` lets a cancellation of the task that it waits for through, and the reaper does not catch it.
  This never happens (`Reaping`). The reaper asks for the lock when it has seen that the operation on
  record has ended. Whoever stands before it in line finds that operation, so that nobody starts
  another one before the reaper's turn (`Slot.Shielded`); and what the reaper finds on record then has
  not been cancelled, because `cancel` keeps the lock until the record is cleared
  (`Cancellation.not_cancelled`).
-/

namespace Nublado.Lab

namespace ManagerState

variable {config : LabConfig} {s s' : ManagerState} {l : Label} {t e o : ℕ}

/-! ### The reaper is never cancelled -/

/-- Operation `o` has ended, and was not cancelled. -/
def Collectable (s : ManagerState) (o : ℕ) : Prop :=
  o < s.ops.size ∧ ∃ r, (s.ops o).outcome = some r ∧ r ≠ .cancelled

/-- What is known of the operation that the reaper will find when it has the lock. -/
def ReapsFor (s : ManagerState) (t e : ℕ) : Method → Prop
  | .wait => (s.slot e).Shielded t
  | .reap o => s.Collectable o
  | _ => True

/-- **What the reaper knows** at each point of `wait`. -/
def Reaps (s : ManagerState) (t e : ℕ) : MethodPc → Prop
  | .acquire _ => ∃ o, (s.monitors e).operation = some o ∧ (s.ops o).outcome.isSome
  | .inside (.queued m) | .inside (.critical m) => s.ReapsFor t e m
  | .inside (.awaitComplete o) | .inside (.awaitTask _ o) => s.Collectable o
  | .inside (.report ..) => True
  | .returned r => r ≠ .cancelled

/-- No reaper will be cancelled. -/
def Reaping (s : ManagerState) : Prop :=
  ∀ t < s.calls.size, ∀ e p loop, (s.calls t).pc = .method e p (.reaped loop) → s.Reaps t e p

theorem Collectable.step (h : s.Collectable o) (hsound : Sound s)
    (hs : s.step config l = some s') : s'.Collectable o := by
  obtain ⟨ho, r, hr, hne⟩ := h
  obtain ⟨ho', -⟩ := op_field_step RunningOperation.entry (fun _ _ ↦ rfl) (fun _ _ ↦ rfl) hs ho
  exact ⟨ho', r, (hsound.settled hs ho hr).1, hne⟩

/-- A task in line of a monitor looks up an operation there. -/
theorem looks_slot {k : Frame} {p : SlotPc Request ℕ} (ht : t < s.calls.size)
    (hpc : (s.calls t).pc = .method e (.inside p) k) (hp : p = .queued .wait ∨ p = .critical .wait) :
    (s.slot e).Looks t := by
  rcases hp with rfl | rfl
  · exact Or.inl (pc_slot ht hpc)
  · exact Or.inr (pc_slot ht hpc)

theorem shielded_step {k k' : Frame} {p p' : SlotPc Request ℕ} (h : (s.slot e).Shielded t)
    (hserved : Served s) (hs : s.step config l = some s') (ht : t < s.calls.size)
    (ht' : t < s'.calls.size) (hpc : (s.calls t).pc = .method e (.inside p) k)
    (hpc' : (s'.calls t).pc = .method e (.inside p') k')
    (hp : p = .queued .wait ∨ p = .critical .wait)
    (hp' : p' = .queued .wait ∨ p' = .critical .wait) : (s'.slot e).Shielded t := by
  rcases slot_step hserved.sound hs e with heq | hstep
  · rwa [heq]
  · exact h.step (hserved.sound.safe e) (hserved.ordered e) hstep (looks_slot ht hpc hp)
      (looks_slot ht' hpc' hp')

/-- What the reaper knows stays true while others take steps. -/
theorem Reaps.stay {k : Frame} {p : SlotPc Request ℕ} (h : s.Reaps t e (.inside p))
    (hserved : Served s) (hs : s.step config l = some s') (ht : t < s.calls.size)
    (ht' : t < s'.calls.size) (hpc : (s.calls t).pc = .method e (.inside p) k)
    (hpc' : (s'.calls t).pc = .method e (.inside p) k) : s'.Reaps t e (.inside p) := by
  cases p with
  | queued m =>
    cases m with
    | wait => exact shielded_step h hserved hs ht ht' hpc hpc' (Or.inl rfl) (Or.inl rfl)
    | reap o => exact Collectable.step h hserved.sound hs
    | _ => trivial
  | critical m =>
    cases m with
    | wait => exact shielded_step h hserved hs ht ht' hpc hpc' (Or.inr rfl) (Or.inr rfl)
    | reap o => exact Collectable.step h hserved.sound hs
    | _ => trivial
  | awaitComplete o | awaitTask m o => exact Collectable.step h hserved.sound hs
  | report => trivial

/-- While a call is at a transient point nobody else takes a step. -/
theorem Control.exec_of_transient (h : Control s) (hs : s.step config l = some s')
    (ht : t < s.calls.size) (hpc : (s.calls t).pc.transient = true) : ∃ r, l = .exec t r := by
  have hrun := h.transient t ht hpc
  cases move_of_step hs with
  | call hnone | op hnone | watch hnone => simp [hrun] at hnone
  | block hturn | acquire hturn | method hturn | resume hturn =>
    obtain rfl := h.eq_of_transient hturn ht hpc
    exact ⟨_, rfl⟩

/-- The reaper calls `wait` when it has seen an operation that has ended. -/
theorem BlockMove.reaps {p : CallerPc} {r : Reply} {b : Shared × Next}
    (hb : s.callBlock config p r = some b) {m : Method} {loop : ReapLoop}
    (h : b.2 = .enter e m (.reaped loop)) :
    ∃ o, (s.monitors e).operation = some o ∧ (s.ops o).outcome.isSome := by
  cases blockMove_of_eq_some hb with
  | quiet hn => exact absurd h (Next.ne_enter hn _ _ _)
  | ensured | refreshed | spawning | joining | aborting | passes | pending | reapBegins
  | reapFailed | stopBegins | stopping => cases h
  | @deleting username caller e' σ _ hσ _ =>
    rw [deleteProceed_of_some hσ] at h
    cases h
  | @reaping loop' username e' rest hrest =>
    obtain ⟨rfl, rfl, -⟩ := Next.enter.inj h
    have hscan : s.reapScan loop' = .enter e' .wait (.reaped { loop' with rest := rest }) :=
      congrArg Prod.snd (Option.some.inj hb)
    rw [reapScan] at hscan
    split at hscan
    · cases hscan
    · simp only [hrest] at hscan
      split at hscan
      · next hany =>
        obtain ⟨o, ho, hended⟩ := (Option.any_eq_true _ _).1 hany
        exact ⟨o, ho, by rwa [RunningOperation.outcome_eq, OpTask.isSome_outcome]⟩
      · cases hscan

/-- No return from a monitor's method leads back into one for the reaper. -/
theorem FrameMove.ne_reaped {e' : ℕ} {k : Frame} {res : MethodResult} {b : Shared × Next}
    (hb : FrameMove s e' k res b) (e : ℕ) (m : Method) (loop : ReapLoop) :
    b.2 ≠ .enter e m (.reaped loop) := by
  intro h
  cases hb with
  | quiet hn | reaped hn => exact Next.ne_enter hn _ _ _ h
  | recorded | started => cases h
  | aborted =>
    rcases hσ : (s.records e').state with _ | σ
    · rw [deleteProceed_of_none hσ] at h
      exact Next.ne_enter (enters_deleteReturn _ _) _ _ _ h
    · rw [deleteProceed_of_some hσ] at h
      cases h
  | finished => exact Next.ne_enter (enters_deleteFinish _ _ _) _ _ _ h

/-- The reaper asks for the lock of a monitor. -/
theorem reaps_arrive {m : Method} {k : Frame} (hpurpose : m = .wait ∨ ∃ o, m = .reap o)
    (hwait : m = .wait → ∃ o, (s.monitors e).operation = some o ∧ (s.ops o).outcome.isSome)
    (hreap : ∀ o, m = .reap o → s.Collectable o) (hsound : Sound s) {p : MethodPc} (hpc : ((s.arrive t e m k).calls t).pc = .method e p k) :
    (s.arrive t e m k).Reaps t e p := by
  have hcollectable : ∀ o, s.Collectable o → (s.arrive t e m k).Collectable o := by
    intro o ho
    rw [Collectable, ops_arrive]
    exact ho
  have hfor : (s.arrive t e m k).ReapsFor t e m := by
    rcases hpurpose with rfl | ⟨o, rfl⟩
    · obtain ⟨o, ho, hended⟩ := hwait rfl
      have hborn := (hsound.safe e).recorded o ho
      have ho' : ((s.arrive t e .wait k).slot e).operation = some o := by
        rw [operation_slot, operation_arrive, ho]
      refine ⟨fun o' h ↦ ?_, fun hnone ↦ ?_⟩
      · obtain rfl := Option.some.inj (ho'.symm.trans h)
        have hborn' : ((s.arrive t e .wait k).slot e).born o := by
          simpa only [slot, ops_arrive] using hborn
        rwa [outcome_slot hborn', ops_arrive]
      · cases ho'.symm.trans hnone
    · exact hcollectable o (hreap o rfl)
  obtain ⟨p', -, hcalls⟩ := s.calls_arrive t e m k
  rcases hfree : (s.monitors e).lock.free with _ | _
  · rw [arrive_of_not_free s t e hfree] at hpc hfor ⊢
    simp only [calls_inside, pc_moved, if_true] at hpc
    cases hpc
    exact hfor
  · rw [arrive_of_free s t e hfree] at hpc hfor ⊢
    simp only [calls_inside, pc_moved, if_true] at hpc
    cases hpc
    exact hfor

/-- **The step of a reaper inside `wait`.** -/
theorem Reaping.method (hserved : Served s) (hcancellation : Cancellation s) {p : SlotPc Request ℕ}
    {loop : ReapLoop} {r : Reply} {a : ManagerState} (h : s.Reaps t e (.inside p))
    (hs : s.step config (.exec t r) = some a.tick) (hturn : s.Turn t)
    (hpc : (s.calls t).pc = .method e (.inside p) (.reaped loop))
    (ha : MethodMove s t e (.reaped loop) p r a) {p' : MethodPc}
    (hpc' : (a.tick.calls t).pc = .method e p' (.reaped loop)) : a.tick.Reaps t e p' := by
  have hfits := hserved.sound.control.fits t hturn.2 e p _ hpc
  have hkeep : ∀ o, s.Collectable o → a.tick.Collectable o := fun o ho ↦
    ho.step hserved.sound hs
  have ht' := (call_step hs hturn.2).1
  have hmoved : ∀ {q : MethodPc}, a.calls = moved s.calls t (.method e q (.reaped loop)) →
      q = p' := by
    intro q hcalls
    rw [calls_tick, hcalls, pc_moved, if_pos rfl] at hpc'
    cases hpc'
    rfl
  cases ha with
  | @granted m m' ws hh hw =>
    obtain rfl := hmoved rfl
    obtain rfl := hserved.sound.purpose_eq hturn.2 hpc (hw ▸ List.mem_cons_self)
    cases m with
    | wait => exact shielded_step h hserved hs hturn.2 ht' hpc hpc' (Or.inl rfl) (Or.inr rfl)
    | reap o => exact hkeep o h
    | _ => trivial
  | conflict | started | idle | aborting => exact absurd hfits id
  | absent =>
    obtain rfl := hmoved rfl
    exact nofun
  | @joined o ho =>
    obtain rfl := hmoved rfl
    have hborn := (hserved.sound.safe e).recorded o ho
    have hended := Slot.Shielded.ended h o ho
    rw [outcome_slot hborn] at hended
    obtain ⟨r, hr⟩ := Option.isSome_iff_exists.1 hended
    refine hkeep o ⟨hborn.1, r, hr, ?_⟩
    rintro rfl
    have hholder := (hserved.sound.safe e).holder_of_critical (pc_slot hturn.2 hpc)
    exact hcancellation.not_cancelled hserved.sound ho hholder (by simp) hr
  | @collecting o =>
    obtain rfl := hmoved rfl
    exact hkeep o h
  | @woken o hcomplete =>
    exact reaps_arrive (Or.inr ⟨o, rfl⟩) nofun (fun o' ho' ↦ by cases ho'; exact h)
      hserved.sound hpc'
  | collected | reported =>
    obtain rfl := hmoved rfl
    exact nofun
  | reporting =>
    obtain rfl := hmoved rfl
    trivial
  | @interrupted m o hcancelled hm =>
    obtain ⟨-, r, hr, hne⟩ := h
    exact absurd (Option.some.inj (hr.symm.trans hcancelled)) hne

/-- **No reaper will be cancelled**: this is inductive. -/
theorem Reaping.step (h : Reaping s) (hserved : Served s) (hcancellation : Cancellation s)
    (hs : s.step config l = some s') : Reaping s' := by
  intro t ht' e p loop hpc'
  by_cases hexec : ∃ r, l = .exec t r
  · obtain ⟨r, rfl⟩ := hexec
    have ht := turn_of_step hs
    cases move_of_step hs with
    | @block _ q _ b hturn hpc hb =>
      rw [calls_tick, calls_follow, pc_moved, if_pos rfl] at hpc'
      obtain ⟨m, rfl, henter⟩ : ∃ m, p = .acquire m ∧ b.2 = .enter e m (.reaped loop) := by
        rcases b with ⟨sh, n⟩
        cases n <;> cases hpc'
        exact ⟨_, rfl, rfl⟩
      obtain ⟨o, ho, hended⟩ := BlockMove.reaps hb henter
      exact ⟨o, by rw [monitors_tick, monitors_follow, ho], by rwa [ops_tick, ops_follow]⟩
    | @acquire _ e' m k hturn hpc =>
      obtain ⟨p', -, hcalls⟩ := s.calls_arrive t e' m k
      have hat := hpc'
      rw [calls_tick, hcalls, pc_moved, if_pos rfl] at hat
      cases hat
      obtain ⟨hfits, hasks⟩ := hserved.sound.control.asks t ht e m _ hpc
      refine reaps_arrive ?_ (fun _ ↦ h t ht e _ loop hpc) ?_ hserved.sound hpc'
      · cases m with
        | wait => exact Or.inl rfl
        | reap o => exact Or.inr ⟨o, rfl⟩
        | _ => exact absurd hfits id
      · rintro o rfl
        exact absurd hasks id
    | @method _ e' p' k _ a hturn hpc ha =>
      obtain ⟨q, hcalls, -⟩ := (methodMove_of_eq_some ha).calls fun m m' hm hmem ↦
        hserved.sound.purpose_eq hturn.2 (hm ▸ hpc) hmem
      have hat := hpc'
      rw [calls_tick, hcalls, pc_moved, if_pos rfl] at hat
      cases hat
      exact Reaping.method hserved hcancellation (h t ht e _ loop hpc) hs hturn hpc
        (methodMove_of_eq_some ha) hpc'
    | @resume _ e' res k hturn hpc =>
      rw [calls_tick, calls_follow, pc_moved, if_pos rfl] at hpc'
      have hne := (frameMove s e' k res).ne_reaped e
      rcases hb : (s.frameBlock e' k res).2 with q | ⟨e₁, m, k'⟩ | x
      · rw [hb] at hpc'
        cases hpc'
      · rw [hb] at hpc'
        cases hpc'
        exact absurd hb (hne m loop)
      · rw [hb] at hpc'
        cases hpc'
  · have hold : t < s.calls.size ∧ (s.calls t).pc = .method e p (.reaped loop) := by
      by_cases ht : t < s.calls.size
      · obtain ⟨-, -, hsame | hmoves⟩ := call_step hs ht
        · exact ⟨ht, hsame ▸ hpc'⟩
        · exact absurd hmoves hexec
      · obtain ⟨c, -, hnew⟩ := new_call hs ht' (by omega)
        rw [hnew] at hpc'
        cases hpc'
    obtain ⟨ht, hpc⟩ := hold
    cases p with
    | inside p => exact (h t ht e _ loop hpc).stay hserved hs ht ht' hpc hpc'
    | acquire | returned =>
      have htransient : (s.calls t).pc.transient = true := by
        rw [hpc]
        rfl
      exact absurd (hserved.sound.control.exec_of_transient hs ht htransient) hexec

/-! ### Passes -/

end ManagerState

/-- The pass that a reaper is in the middle of. -/
def CallPc.pass : CallPc → Option ReapLoop
  | .caller (.reapScan loop) | .caller (.reapReport loop _) | .method _ _ (.reaped loop) => some loop
  | _ => none

namespace ManagerState

variable {config : LabConfig} {s s' : ManagerState} {l : Label} {t e : ℕ}

/-- **How a reaper moves**, between passes and within one. It compares the size of the dictionary
whenever it goes on to the next record. -/
inductive ReaperMove (s : ManagerState) : CallPc → CallPc → Prop
  /-- Between passes, or at the end of one. -/
  | idles {pc pc' : CallPc} : pc'.pass = none → (∀ x, pc' ≠ .finished x) →
      (∀ loop, pc.pass = some loop → s.dictSize loop.dict = loop.size) → ReaperMove s pc pc'
  | begins {pc pc' : CallPc} {loop : ReapLoop} : pc.pass = none → pc'.pass = some loop →
      loop.dict = s.dict → loop.size = s.labs.length → ReaperMove s pc pc'
  | goes {pc pc' : CallPc} {loop loop' : ReapLoop} : pc.pass = some loop → pc'.pass = some loop' →
      loop'.dict = loop.dict → loop'.size = loop.size →
      (pc = .caller (.reapScan loop) → s.dictSize loop.dict = loop.size) → ReaperMove s pc pc'
  | dies {loop : ReapLoop} {x : LabException} : s.dictSize loop.dict ≠ loop.size →
      ReaperMove s (.caller (.reapScan loop)) (.finished (.error x))

theorem pass_reapLoop (sh : Shared) :
    (reapLoop sh).pc.pass = none ∧ ∀ x, (reapLoop sh).pc ≠ .finished x := by
  unfold reapLoop
  split <;> exact ⟨rfl, by simp [Next.pc]⟩

theorem mapping_reapFailed (s : ManagerState) (e : ℕ) :
    (s.reapFailed e).labs = s.labs ∧ (s.reapFailed e).retired = s.retired := by
  unfold reapFailed
  split <;> exact ⟨rfl, rfl⟩

/-- Inside a monitor's method nothing happens to the mapping. -/
theorem MethodMove.mapping {k : Frame} {p : SlotPc Request ℕ} {r : Reply} {a : ManagerState}
    (ha : MethodMove s t e k p r a) : a.labs = s.labs ∧ a.retired = s.retired := by
  cases ha with
  | aborting =>
    simp only [toShared_inside]
    unfold cancelTask
    split <;> exact ⟨rfl, rfl⟩
  | woken =>
    rw [toShared_arrive]
    exact ⟨rfl, rfl⟩
  | _ => exact ⟨rfl, rfl⟩

/-- The reaper has one frame. -/
theorem Frame.eq_reaped {sh : Shared} {k : Frame} (hk : k.Of sh e .reapSpawners) :
    ∃ loop, k = .reaped loop := by
  cases k with
  | reaped loop => exact ⟨loop, rfl⟩
  | createStarted =>
    obtain ⟨_, _, h, -⟩ := hk
    cases h
  | deleteJoined _ caller | deleteAborted _ caller | deleteStarted _ caller
  | deleteAwaited _ caller => cases caller <;> cases hk
  | _ => cases hk

/-- The blocks of the reaper. -/
theorem reaperMove_of_callBlock {p : CallerPc} {r : Reply} {b : Shared × Next}
    (hp : p.origin = .reapSpawners) (hb : s.callBlock config p r = some b) :
    b.1.labs = s.labs ∧ b.1.retired = s.retired ∧ ReaperMove s (.caller p) b.2.pc := by
  have hbegin : ∀ {q : CallerPc}, (CallPc.caller q).pass = none →
      s.reapBegin.1.labs = s.labs ∧ s.reapBegin.1.retired = s.retired ∧
        ReaperMove s (.caller q) s.reapBegin.2.pc := fun hq ↦
    ⟨rfl, rfl, .begins hq rfl rfl rfl⟩
  cases p with
  | createStart | createImage | createPhase | createReport | createCheck => cases hp
  | deleteStart username caller => cases caller <;> cases hp
  | reconcileStart | reconcileList | reconcileGather | reconcileRead | reconcilePurge => cases hp
  | reconcilePass | reconcilePending | reconcileCompleted | reconcilePublish => cases hp
  | stopStart | stopScan => cases hp
  | reapStart =>
    cases r <;> cases hb
    obtain ⟨hpass, hlive⟩ := pass_reapLoop s.toShared
    exact ⟨rfl, rfl, .idles hpass hlive nofun⟩
  | reapWait since =>
    cases r with
    | go =>
      rw [callBlock] at hb
      split at hb
      · obtain rfl := Option.some.inj hb
        exact hbegin rfl
      · cases hb
    | _ => cases hb
  | reapWoken =>
    cases r <;> cases hb
    exact hbegin rfl
  | reapReport loop e =>
    cases r <;> cases hb
    obtain ⟨hlabs, hretired⟩ := mapping_reapFailed s e
    exact ⟨hlabs, hretired, .goes rfl rfl rfl rfl nofun⟩
  | reapScan loop =>
    cases r <;> cases hb
    refine ⟨rfl, rfl, ?_⟩
    by_cases hsize : s.dictSize loop.dict = loop.size
    · obtain ⟨hpass, hlive⟩ := pass_reapLoop s.toShared
      rw [reapScan, if_neg (by simpa using hsize)]
      split
      · exact .idles hpass hlive fun _ h ↦ by cases h; exact hsize
      · split
        · exact .goes rfl rfl rfl rfl fun _ ↦ hsize
        · exact .goes rfl rfl rfl rfl fun _ ↦ hsize
    · rw [reapScan, if_pos hsize]
      exact .dies hsize

/-- **Every step of a reaper is one of these moves**, and leaves the mapping alone. -/
theorem reaperMove (hserved : Served s) (hreaping : Reaping s) {r : Reply}
    (hs : s.step config (.exec t r) = some s') (hcall : (s.calls t).call = .reapSpawners) :
    s'.labs = s.labs ∧ s'.retired = s.retired ∧ ReaperMove s (s.calls t).pc (s'.calls t).pc := by
  have hvalid := hserved.valid.calls t (turn_of_step hs)
  rw [hcall] at hvalid
  cases move_of_step hs with
  | @block _ p _ b hturn hpc hb =>
    rw [hpc] at hvalid ⊢
    obtain ⟨hlabs, hretired, hmove⟩ := reaperMove_of_callBlock hvalid.1 hb
    rw [calls_tick, calls_follow, pc_moved, if_pos rfl]
    simp only [toShared_tick, toShared_follow]
    exact ⟨hlabs, hretired, hmove⟩
  | @acquire _ e m k hturn hpc =>
    obtain ⟨p, -, hcalls⟩ := s.calls_arrive t e m k
    rw [hpc] at hvalid ⊢
    obtain ⟨loop, rfl⟩ := Frame.eq_reaped hvalid.2.1
    rw [calls_tick, hcalls, pc_moved, if_pos rfl]
    simp only [toShared_tick, toShared_arrive]
    exact ⟨trivial, trivial, .goes rfl rfl rfl rfl nofun⟩
  | @method _ e p k _ a hturn hpc ha =>
    replace ha := methodMove_of_eq_some ha
    obtain ⟨q, hcalls, -⟩ := ha.calls fun m m' hm hmem ↦
      hserved.sound.purpose_eq hturn.2 (hm ▸ hpc) hmem
    rw [hpc] at hvalid ⊢
    obtain ⟨loop, rfl⟩ := Frame.eq_reaped hvalid.2.1
    obtain ⟨hlabs, hretired⟩ := ha.mapping
    rw [calls_tick, hcalls, pc_moved, if_pos rfl]
    exact ⟨hlabs, hretired, .goes rfl rfl rfl rfl nofun⟩
  | @resume _ e res k hturn hpc =>
    have hreaps := hpc
    rw [hpc] at hvalid ⊢
    obtain ⟨loop, rfl⟩ := Frame.eq_reaped hvalid.2.1
    have hres : res ≠ .cancelled := hreaping t hturn.2 e _ loop hreaps
    rw [calls_tick, calls_follow, pc_moved, if_pos rfl]
    simp only [toShared_tick, toShared_follow]
    cases res with
    | cancelled => exact absurd rfl hres
    | ok | noOperation | operationConflict | failed =>
      exact ⟨rfl, rfl, .goes rfl rfl rfl rfl nofun⟩

/-! ### The mapping only grows -/

/-- The mapping of users in `sh` has grown out of the one in `s`. -/
def Grown (s : ManagerState) (sh : Shared) : Prop :=
  s.labs.length ≤ sh.labs.length ∧ sh.retired = s.retired

theorem Grown.of_eq {sh : Shared} (hlabs : sh.labs = s.labs) (hretired : sh.retired = s.retired) :
    s.Grown sh :=
  ⟨by rw [hlabs], hretired⟩

theorem grown_deleteProceed (username : String) (e : ℕ) (caller : DeleteCaller) :
    s.Grown (s.deleteProceed username e caller).1 := by
  rcases hσ : (s.records e).state with _ | σ
  · rw [deleteProceed_of_none hσ]
    exact .of_eq rfl rfl
  · rw [deleteProceed_of_some hσ]
    exact .of_eq rfl rfl

theorem BlockMove.grown {p : CallerPc} {r : Reply} {b : Shared × Next} (hb : BlockMove s p r b)
    (hstop : p ≠ .stopStart)
    (hobserved : ∀ cutoff observed, p = .reconcilePass cutoff observed → DistinctKeys observed) :
    s.Grown b.1 := by
  cases hb with
  | quiet | joining | aborting | reaping | stopping | spawning | pending | reapBegins =>
    exact .of_eq rfl rfl
  | ensured hnone => exact ⟨by simp [Shared.insertLab], rfl⟩
  | refreshed =>
    unfold refreshState
    split
    · exact .of_eq rfl rfl
    · split <;> exact .of_eq rfl rfl
  | deleting => exact grown_deleteProceed _ _ _
  | passes =>
    refine reconcilePasses_rule (fun sh _ _ hsh ↦ hsh) ?_ (hobserved _ _ rfl) (.of_eq rfl rfl)
    rintro sh username x ⟨hlength, hretired⟩ -
    refine ⟨hlength.trans ?_, hretired⟩
    simp [Shared.insertLab, Shared.allocState]
  | reapFailed =>
    obtain ⟨hlabs, hretired⟩ := mapping_reapFailed s _
    exact .of_eq hlabs hretired
  | stopBegins => exact absurd rfl hstop

theorem FrameMove.grown {k : Frame} {res : MethodResult} {b : Shared × Next}
    (hb : FrameMove s e k res b) : s.Grown b.1 := by
  cases hb with
  | quiet | started | recorded | reaped => exact .of_eq rfl rfl
  | aborted => exact grown_deleteProceed _ _ _
  | finished =>
    unfold deleteFinish
    dsimp only
    split
    · exact .of_eq rfl rfl
    · split <;> exact .of_eq rfl rfl

/-- **Before the monitors are stopped the mapping only grows.** -/
theorem Served.grown (h : Served s) (hs : s.step config l = some s') (hl : l.stops = false) :
    s.Grown s'.toShared := by
  have hserved' := h.step hs hl
  cases move_of_step hs with
  | call | watch => exact .of_eq rfl rfl
  | @block t p r b hturn hpc hb =>
    have hp := h.valid.calls t hturn.2
    rw [hpc] at hp
    rw [toShared_tick, toShared_follow]
    refine (blockMove_of_eq_some hb).grown ?_ ?_
    · rintro rfl
      exact h.noStop t hturn.2 hp.1.symm
    · rintro _ _ rfl
      exact hp.2
  | acquire => exact .of_eq (by simp) (by simp)
  | method _ _ ha =>
    obtain ⟨hlabs, hretired⟩ := (methodMove_of_eq_some ha).mapping
    exact .of_eq hlabs hretired
  | @resume t e res k =>
    rw [toShared_tick, toShared_follow]
    exact (frameMove s e k res).grown
  | @op o r f =>
    refine .of_eq (by simp) ?_
    rw [toShared_tick]
    unfold afterOp
    split <;> rfl

theorem Grown.dict_eq {sh : Shared} (h : s.Grown sh) : sh.dict = s.dict := by
  rw [Shared.dict, h.2]
  rfl

end ManagerState

/-! ### Runs -/

variable {config : LabConfig} {s s' : ManagerState} {τ : List (Transition ManagerState Label)} {t : ℕ}

theorem Run.reaping (hrun : Run config .initial τ s) (hserving : Serving τ) : s.Reaping := by
  have hall : s.Served ∧ s.Cancellation ∧ s.Reaping := by
    refine hrun.invariant_of (P := fun s ↦ s.Served ∧ s.Cancellation ∧ s.Reaping) (C := Stopless)
      ?_ ⟨ManagerState.served_initial, ManagerState.cancellation_initial, ?_⟩ hserving
    · rintro a l b ⟨hserved, hcancellation, hreaping⟩ hab hl
      exact ⟨hserved.step hab hl, hcancellation.step hserved.sound hab,
        hreaping.step hserved hcancellation hab⟩
    · exact fun t ht ↦ absurd ht (Nat.not_lt_zero t)
  exact hall.2.2

/-- In this step a user is added to the mapping while reaper `t` is in the middle of a pass. -/
def AddsDuringPass (t : ℕ) (x : Transition ManagerState Label) : Prop :=
  t < x.pre.calls.size ∧ (x.pre.calls t).pc.pass.isSome = true ∧
    x.pre.labs.length < x.post.labs.length

/-- In this step reaper `t` goes on to the next record of its pass. -/
def ScansOn (t : ℕ) (x : Transition ManagerState Label) : Prop :=
  (∃ r, x.label = .exec t r) ∧ ∃ loop, (x.pre.calls t).pc = .caller (.reapScan loop)

/-- A user was added in the middle of a pass of reaper `t`, which has gone on since. -/
def Overtaken (τ : List (Transition ManagerState Label)) (t : ℕ) : Prop :=
  ∃ τ₁ x τ₂, τ = τ₁ ++ x :: τ₂ ∧ AddsDuringPass t x ∧ ∃ y ∈ τ₂, ScansOn t y

theorem Overtaken.append (h : Overtaken τ t) (τ' : List (Transition ManagerState Label)) :
    Overtaken (τ ++ τ') t := by
  obtain ⟨τ₁, x, τ₂, rfl, hadds, y, hy, hscans⟩ := h
  exact ⟨τ₁, x, τ₂ ++ τ', by simp, hadds, y, List.mem_append_left _ hy, hscans⟩

/-- What is known of reaper `t` after a run. -/
structure PassesKept (τ : List (Transition ManagerState Label)) (s : ManagerState) (t : ℕ) : Prop where
  current : ∀ loop, (s.calls t).pc.pass = some loop → loop.dict = s.dict ∧
    loop.size ≤ s.labs.length ∧ (loop.size = s.labs.length ∨ ∃ x ∈ τ, AddsDuringPass t x)
  dead : ∀ x, (s.calls t).pc = .finished x → Overtaken τ t

theorem dictSize_of_current {loop : ReapLoop} (h : loop.dict = s.dict) :
    s.dictSize loop.dict = s.labs.length :=
  if_pos h

/-- What is known of a reaper after its own step. -/
theorem PassesKept.moved {l : Label} (h : PassesKept τ s t)
    (hlabs : s'.labs = s.labs) (hretired : s'.retired = s.retired)
    (hmove : ManagerState.ReaperMove s (s.calls t).pc (s'.calls t).pc) (hl : ∃ r, l = .exec t r) :
    PassesKept (τ ++ [⟨s, l, s'⟩]) s' t := by
  have hdict : s'.dict = s.dict := by rw [Shared.dict, hretired]; rfl
  have hadded : (∃ x ∈ τ, AddsDuringPass t x) → ∃ x ∈ τ ++ [⟨s, l, s'⟩], AddsDuringPass t x :=
    fun ⟨x, hx, hadds⟩ ↦ ⟨x, List.mem_append_left _ hx, hadds⟩
  generalize hpc : (s.calls t).pc = pc at hmove
  generalize hpc' : (s'.calls t).pc = pc' at hmove
  cases hmove with
  | idles hpass hlive =>
    refine ⟨fun loop hloop ↦ ?_, fun x hx ↦ ?_⟩
    · rw [hpc', hpass] at hloop
      cases hloop
    · exact absurd (hpc'.symm.trans hx) (hlive x)
  | @begins _ _ loop hnone hpass hcurrent hsize =>
    refine ⟨fun loop' hloop ↦ ?_, fun x hx ↦ ?_⟩
    · rw [hpc', hpass] at hloop
      obtain rfl := Option.some.inj hloop
      rw [hdict, hlabs, hsize]
      exact ⟨hcurrent, le_rfl, Or.inl rfl⟩
    · rw [← hpc', hx] at hpass
      cases hpass
  | @goes _ _ loop loop' hpass hpass' hsame hsize =>
    refine ⟨fun loop'' hloop ↦ ?_, fun x hx ↦ ?_⟩
    · rw [hpc', hpass'] at hloop
      obtain rfl := Option.some.inj hloop
      obtain ⟨hcurrent, hle, hold⟩ := h.current loop (by rw [hpc, hpass])
      rw [hdict, hlabs, hsame, hsize]
      exact ⟨hcurrent, hle, hold.imp_right hadded⟩
    · rw [← hpc', hx] at hpass'
      cases hpass'
  | @dies loop x hsize =>
    refine ⟨fun loop' hloop ↦ ?_, fun _ _ ↦ ?_⟩
    · rw [hpc'] at hloop
      cases hloop
    · -- the size has changed since the pass began, so a user was added
      obtain ⟨hcurrent, -, hold⟩ := h.current loop (by rw [hpc]; rfl)
      rw [dictSize_of_current hcurrent] at hsize
      obtain ⟨y, hy, hadds⟩ := hold.resolve_left (Ne.symm hsize)
      obtain ⟨τ₁, τ₂, rfl⟩ := List.append_of_mem hy
      exact ⟨τ₁, y, τ₂ ++ [⟨s, l, s'⟩], by simp, hadds, _,
        List.mem_append_right _ (List.mem_singleton_self _), hl, loop, hpc⟩

/-- What is known of a reaper after a step of somebody else. -/
theorem PassesKept.stayed {l : Label} (h : PassesKept τ s t) (ht : t < s.calls.size)
    (hgrown : s.Grown s'.toShared) (hpc : (s'.calls t).pc = (s.calls t).pc) :
    PassesKept (τ ++ [⟨s, l, s'⟩]) s' t := by
  refine ⟨fun loop hloop ↦ ?_, fun x hx ↦ (h.dead x (hpc ▸ hx)).append _⟩
  rw [hpc] at hloop
  obtain ⟨hcurrent, hle, hold⟩ := h.current loop hloop
  refine ⟨hcurrent.trans hgrown.dict_eq.symm, hle.trans hgrown.1, ?_⟩
  rcases hgrown.1.eq_or_lt with heq | hlt
  · exact hold.imp (fun hsize ↦ hsize.trans heq) fun ⟨x, hx, hadds⟩ ↦
      ⟨x, List.mem_append_left _ hx, hadds⟩
  · exact Or.inr ⟨_, List.mem_append_right _ (List.mem_singleton_self _), ht, by rw [hloop]; rfl,
      hlt⟩

/-- **What is known of the reapers after a run.** -/
theorem Run.passesKept (hrun : Run config .initial τ s) (hserving : Serving τ)
    (ht : t < s.calls.size) (hcall : (s.calls t).call = .reapSpawners) : PassesKept τ s t := by
  refine hrun.history (P := fun τ s ↦ Serving τ → ∀ t < s.calls.size,
    (s.calls t).call = .reapSpawners → PassesKept τ s t) ?_ ?_ hserving t ht hcall
  · intro τ a l b hτ hP hab hserving t ht' hcall'
    have hserving' : Serving τ := fun x hx ↦ hserving x (List.mem_append_left _ hx)
    have hl : l.stops = false :=
      hserving ⟨a, l, b⟩ (List.mem_append_right _ (List.mem_singleton_self _))
    have hserved := Run.served hτ hserving'
    by_cases ht : t < a.calls.size
    · obtain ⟨-, hcall, hpc⟩ := ManagerState.call_step hab ht
      have hkept := hP hserving' t ht (hcall ▸ hcall')
      by_cases hexec : ∃ r, l = .exec t r
      · obtain ⟨r, rfl⟩ := hexec
        obtain ⟨hlabs, hretired, hmove⟩ :=
          ManagerState.reaperMove hserved (Run.reaping hτ hserving') hab (hcall ▸ hcall')
        exact hkept.moved hlabs hretired hmove ⟨r, rfl⟩
      · exact hkept.stayed ht (hserved.grown hab hl) (hpc.resolve_right hexec)
    · obtain ⟨c, -, hnew⟩ := ManagerState.new_call hab ht' (by omega)
      rw [hnew] at hcall'
      obtain rfl : c = .reapSpawners := hcall'
      refine ⟨fun loop hloop ↦ ?_, fun x hx ↦ ?_⟩
      · rw [hnew] at hloop
        cases hloop
      · rw [hnew] at hx
        cases hx
  · exact fun _ t ht ↦ absurd ht (Nat.not_lt_zero t)

/-- The pass of reaper `t` has been overtaken, or the reaper has failed. -/
def Doomed (s : ManagerState) (t : ℕ) : Prop :=
  t < s.calls.size ∧ (s.calls t).call = .reapSpawners ∧
    ((∃ loop, (s.calls t).pc.pass = some loop ∧ loop.dict = s.dict ∧ loop.size < s.labs.length) ∨
      ∃ x, (s.calls t).pc = .finished x)

/-- **A reaper whose pass has been overtaken fails when it goes on.** -/
theorem Doomed.step {l : Label} (h : Doomed s t) (hserved : s.Served) (hreaping : s.Reaping)
    (hs : s.step config l = some s') (hl : l.stops = false) :
    Doomed s' t ∧ (ScansOn t ⟨s, l, s'⟩ → ∃ x, (s'.calls t).pc = .finished x) := by
  obtain ⟨ht, hcall, hdoomed⟩ := h
  obtain ⟨ht', hcall', hpc⟩ := ManagerState.call_step hs ht
  have hgrown := hserved.grown hs hl
  by_cases hexec : ∃ r, l = .exec t r
  · obtain ⟨r, rfl⟩ := hexec
    obtain ⟨hlabs, hretired, hmove⟩ := ManagerState.reaperMove hserved hreaping hs hcall
    obtain ⟨loop, hpass, hcurrent, hlt⟩ := hdoomed.resolve_right fun ⟨x, hx⟩ ↦
      ManagerState.not_finished_of_step hs x hx
    have hstale : s.dictSize loop.dict ≠ loop.size := by
      rw [dictSize_of_current hcurrent]
      omega
    generalize hat : (s.calls t).pc = pc at hmove hpass
    generalize hat' : (s'.calls t).pc = pc' at hmove
    cases hmove with
    | idles _ _ hchecked => exact absurd (hchecked loop hpass) hstale
    | begins hnone =>
      rw [hnone] at hpass
      cases hpass
    | @goes _ _ loop₁ loop' hpass₁ hpass' hsame hsize hchecked =>
      obtain rfl := Option.some.inj (hpass.symm.trans hpass₁)
      refine ⟨⟨ht', hcall'.trans hcall, Or.inl ⟨loop', by rw [hat', hpass'], ?_, ?_⟩⟩, ?_⟩
      · rw [hsame, hcurrent, hgrown.dict_eq]
      · rw [hsize, hlabs]
        exact hlt
      · rintro ⟨-, loop₂, hscan⟩
        replace hscan := hat.symm.trans hscan
        rw [hscan] at hpass
        cases hpass
        exact absurd (hchecked hscan) hstale
    | dies => exact ⟨⟨ht', hcall'.trans hcall, Or.inr ⟨_, hat'⟩⟩, fun _ ↦ ⟨_, rfl⟩⟩
  · have hsame := hpc.resolve_right hexec
    refine ⟨⟨ht', hcall'.trans hcall, ?_⟩, fun ⟨hlabel, _⟩ ↦ absurd hlabel hexec⟩
    rcases hdoomed with ⟨loop, hpass, hcurrent, hlt⟩ | ⟨x, hx⟩
    · exact Or.inl ⟨loop, by rw [hsame, hpass], by rw [hcurrent, hgrown.dict_eq],
        hlt.trans_le hgrown.1⟩
    · exact Or.inr ⟨x, hsame.trans hx⟩

/-- A user who is added in the middle of a pass overtakes it. -/
theorem AddsDuringPass.doomed {l : Label} (h : AddsDuringPass t ⟨s, l, s'⟩)
    (hkept : (s.calls t).call = .reapSpawners → PassesKept τ s t) (hserved : s.Served)
    (hreaping : s.Reaping) (hs : s.step config l = some s') (hl : l.stops = false) : Doomed s' t := by
  obtain ⟨ht, hpass, hlt⟩ := h
  obtain ⟨loop, hpass⟩ := Option.isSome_iff_exists.1 hpass
  have hvalid := hserved.valid.calls t ht
  have hcall : (s.calls t).call = .reapSpawners := by
    generalize (s.calls t).pc = pc at hpass hvalid
    fun_cases CallPc.pass pc
    · exact hvalid.1.symm
    · exact hvalid.1.symm
    · exact hvalid.2.1
    · next h₁ h₂ h₃ => simp_all [CallPc.pass]
  obtain ⟨ht', hcall', hpc⟩ := ManagerState.call_step hs ht
  have hexec : ¬ ∃ r, l = .exec t r := by
    rintro ⟨r, rfl⟩
    obtain ⟨hlabs, -, -⟩ := ManagerState.reaperMove hserved hreaping hs hcall
    rw [hlabs] at hlt
    exact absurd hlt (lt_irrefl _)
  obtain ⟨hcurrent, hle, -⟩ := (hkept hcall).current loop hpass
  refine ⟨ht', hcall'.trans hcall, Or.inl ⟨loop, ?_, ?_, hle.trans_lt hlt⟩⟩
  · rw [hpc.resolve_right hexec, hpass]
  · rw [hcurrent, (hserved.grown hs hl).dict_eq]

/-- **When the reaper survives.** Before the monitors are stopped, the reapers are still in their loops
if and only if no reaper has gone on with a pass during which a user was added to the mapping. -/
theorem reaper_survives_iff (hrun : Run config .initial τ s) (hserving : Serving τ) :
    (∀ t < s.calls.size, (s.calls t).call = .reapSpawners → ∀ x, (s.calls t).pc ≠ .finished x) ↔
      ∀ t, ¬ Overtaken τ t := by
  constructor
  · rintro halive t ⟨τ₁, x, τ₂, rfl, hadds, y, hy, hscans⟩
    obtain ⟨a, hpre, hpost⟩ := hrun.split
    have hserving₁ : Serving τ₁ := fun z hz ↦ hserving z (List.mem_append_left _ hz)
    have hx : Stopless x := hserving x (by simp)
    have hserving₂ : Serving τ₂ := fun z hz ↦ hserving z (by simp [hz])
    have hserved := Run.served hpre hserving₁
    have hreaping := Run.reaping hpre hserving₁
    cases hpost with
    | @cons _ b _ l _ hstep htail =>
      have hdoomed : Doomed b t := hadds.doomed
        (fun hcall ↦ Run.passesKept hpre hserving₁ hadds.1 hcall) hserved hreaping hstep hx
      -- the pass stays overtaken up to the step in which the reaper goes on
      obtain ⟨hy', τ₃, τ₄, rfl, hbefore, hafter⟩ := htail.mem_elim hy
      have hserving₃ : ∀ z ∈ τ₃, Stopless z := fun z hz ↦ hserving₂ z (List.mem_append_left _ hz)
      have hserved' := hserved.step hstep hx
      have hcancellation' := (Run.cancellation hpre).step hserved.sound hstep
      have hreaping' := hreaping.step hserved (Run.cancellation hpre) hstep
      obtain ⟨hdoomed', hserved', -, hreaping'⟩ : Doomed y.pre t ∧ y.pre.Served ∧
          y.pre.Cancellation ∧ y.pre.Reaping := by
        refine hbefore.invariant_of
          (P := fun s ↦ Doomed s t ∧ s.Served ∧ s.Cancellation ∧ s.Reaping) (C := Stopless) ?_
          ⟨hdoomed, hserved', hcancellation', hreaping'⟩ hserving₃
        rintro a l b ⟨hdoomed, hserved, hcancellation, hreaping⟩ hab hl
        exact ⟨(hdoomed.step hserved hreaping hab hl).1, hserved.step hab hl,
          hcancellation.step hserved.sound hab, hreaping.step hserved hcancellation hab⟩
      have hy'' : y.label.stops = false := hserving₂ y hy
      obtain ⟨hdead, hfinished⟩ := hdoomed'.step hserved' hreaping' hy' hy''
      obtain ⟨r, hr⟩ := hfinished hscans
      obtain ⟨ht, hcall, hkeeps⟩ := Run.call_keeps hafter hdead.1
      exact halive t ht (hcall.trans hdead.2.1) r (hkeeps r hr)
  · intro hnot t ht hcall x hx
    exact hnot t ((Run.passesKept hrun hserving ht hcall).dead x hx)

/-- Reaper `t` makes a pass in which it collects one operation. -/
def Sample.reap (t : ℕ) : List Label := List.replicate 9 (.exec t .go)

/-- A reaper that collects a spawn and goes on waiting. -/
theorem reaper_survives_sample : ∃ τ s, Run Sample.config .initial τ s ∧
    (s.monitors 0).operation = none ∧ ∀ t, ¬ Overtaken τ t := by
  obtain ⟨τ, s, hrun, hserving, hidle, hsize, hreaper, hother⟩ := Sample.exists_run
    ([.call .reapSpawners, .exec 0 .go] ++ Sample.create 1 ++ Sample.build 0 ++ Sample.start 0 ++
      Sample.reap 0)
    (fun τ s ↦ Serving τ ∧ (s.monitors 0).operation = none ∧ s.calls.size = 2 ∧
      (s.calls 0).pc = .caller (.reapWait 1) ∧ (s.calls 1).call ≠ .reapSpawners)
    (by decide +kernel)
  refine ⟨τ, s, hrun, hidle, (reaper_survives_iff hrun hserving).1 fun t ht hcall x hx ↦ ?_⟩
  obtain rfl | rfl : t = 0 ∨ t = 1 := by omega
  · cases hreaper.symm.trans hx
  · exact hother hcall

/-- A second user who may spawn labs. -/
def Sample.otherUser : GafaelfawrUser :=
  { username := "ben", uid := some 2, gid := some 2, token := "u" }

/-- **A user who spawns a lab for the first time stops the reaper**, which is reporting how another
user's spawn has failed. -/
theorem reaper_stops : ∃ τ s, Run Sample.config .initial τ s ∧ Serving τ ∧ 0 < s.calls.size ∧
    (s.calls 0).call = .reapSpawners ∧
    (s.calls 0).pc = .finished (.error (.runtimeError "dictionary changed size during iteration")) :=
  Sample.exists_run
    ([.call .reapSpawners, .exec 0 .go] ++ Sample.create 1 ++ Sample.build 0 ++
      [.op 0 .done, .watch 0 .go, .op 0 .go, .op 0 (.failed (.runtimeError "no broker"))] ++
      List.replicate 7 (.exec 0 .go) ++
      [.call (.createLab Sample.otherUser Sample.spec), .exec 2 .go, .exec 0 .reported, .exec 0 .go,
        .exec 0 .go])
    (fun τ s ↦ Serving τ ∧ 0 < s.calls.size ∧ (s.calls 0).call = .reapSpawners ∧ (s.calls 0).pc =
      .finished (.error (.runtimeError "dictionary changed size during iteration")))
    (by decide +kernel)

end Nublado.Lab
