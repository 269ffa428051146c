import Nublado.Lab.Manager.Validity

/-!
# Before the monitors are stopped

Until `stop_monitor_tasks` is called, two more things hold of every reachable state (`Served`):

* every record is the one its user's name leads to, so the mapping of users and the records are the
  same thing (`Served.lookup_eq_some_iff`);
* every cancellation names the operation it is aimed at, so the argument about arrival order applies
  to every monitor (`Served.ordered`).
-/

namespace Nublado.Lab

/-- Every record is the one its user's name leads to. -/
def Shared.Found (sh : Shared) : Prop :=
  ∀ e < sh.records.size, sh.labs.lookup (sh.records e).username = some e

namespace Shared

variable {sh sh' : Shared}

/-- Updates that touch neither the mapping nor the users of the records. -/
theorem Found.congr (h : sh.Found) (hlabs : sh'.labs = sh.labs)
    (hsize : sh'.records.size = sh.records.size)
    (huser : ∀ e, (sh'.records e).username = (sh.records e).username) : sh'.Found := by
  intro e he
  rw [hlabs, huser]
  exact h e (hsize ▸ he)

/-- Adding a new user. -/
theorem Found.insertLab (h : sh.Found) {username : String} (hnone : sh.labs.lookup username = none)
    (state : Option ℕ) (now : ℕ) : (sh.insertLab username state now).Found := by
  intro e he
  simp only [Shared.insertLab, Heap.size_alloc, Heap.alloc_apply] at he ⊢
  rw [lookup_concat_eq_some_iff hnone]
  split
  · next heq => exact Or.inr ⟨rfl, heq⟩
  · exact Or.inl (h e (by omega))

theorem Found.touch (h : sh.Found) (e now : ℕ) : (sh.touch e now).Found :=
  h.congr rfl rfl (username_touch sh e now)

theorem Found.setState (h : sh.Found) (e : ℕ) (σ : Option ℕ) : (sh.setState e σ).Found :=
  h.congr rfl rfl (username_setState sh e σ)

end Shared

namespace ManagerState

variable {config : LabConfig} {s s' : ManagerState} {l : Label} {t e : ℕ}

theorem found_marked (h : s.toShared.Found) (σ : ℕ) : (s.marked e σ).Found :=
  h.congr rfl rfl fun _ ↦ Shared.username_clearEvents _ _ _

theorem found_deleteProceed (h : s.toShared.Found) (username : String) (caller : DeleteCaller) :
    (s.deleteProceed username e caller).1.Found := by
  rcases hσ : (s.records e).state with _ | σ
  · rw [deleteProceed_of_none hσ]
    exact h.congr rfl rfl fun _ ↦ Shared.username_clearEvents _ _ _
  · rw [deleteProceed_of_some hσ]
    exact (found_marked h σ).congr rfl rfl fun _ ↦ rfl

/-- Only `stop_monitor_tasks` loses users. -/
theorem BlockMove.found {p : CallerPc} {r : Reply} {b : Shared × Next} (hb : BlockMove s p r b)
    (h : s.toShared.Found) (hstop : p ≠ .stopStart)
    (hobserved : ∀ cutoff observed, p = .reconcilePass cutoff observed → DistinctKeys observed) :
    b.1.Found := by
  cases hb with
  | quiet | joining | aborting | reaping | stopping => exact h
  | ensured hnone => exact h.insertLab hnone _ _
  | refreshed =>
    unfold refreshState
    split
    · exact h.congr rfl rfl fun _ ↦ rfl
    · split
      · exact h.congr rfl rfl fun _ ↦ rfl
      · exact h
  | spawning => exact h.congr rfl rfl fun _ ↦ Shared.username_clearEvents _ _ _
  | deleting => exact found_deleteProceed h _ _
  | passes =>
    refine reconcilePasses_rule (fun sh _ _ hsh ↦ hsh.congr rfl rfl fun _ ↦ rfl) ?_
      (hobserved _ _ rfl) h
    intro sh username x hsh hnone
    have halloc : (sh.allocState x).Found := hsh.congr rfl rfl fun _ ↦ rfl
    exact halloc.insertLab hnone _ _
  | pending => exact h.congr rfl rfl fun _ ↦ Shared.username_clearEvents _ _ _
  | reapBegins => exact h.congr rfl rfl fun _ ↦ rfl
  | reapFailed =>
    unfold ManagerState.reapFailed
    split
    · exact h.congr rfl rfl fun _ ↦ rfl
    · exact h
  | stopBegins => exact absurd rfl hstop

theorem FrameMove.found {k : Frame} {res : MethodResult} {b : Shared × Next}
    (hb : FrameMove s e k res b) (h : s.toShared.Found) : b.1.Found := by
  have htouch := Shared.Found.touch h e s.clock
  cases hb with
  | quiet | started => exact h
  | recorded => exact Shared.Found.setState h _ _
  | aborted => exact found_deleteProceed h _ _
  | finished =>
    unfold deleteFinish
    dsimp only
    split
    · exact htouch
    · split
      · exact htouch.setState _ _
      · exact htouch
  | reaped => exact htouch

/-- Steps outside the manager's own methods leave the mapping alone. -/
theorem MethodMove.labs_records {k : Frame} {p : SlotPc Request ℕ} {r : Reply} {a : ManagerState}
    (ha : MethodMove s t e k p r a) : a.labs = s.labs ∧ a.records = s.records := by
  cases ha with
  | aborting =>
    simp only [toShared_inside]
    unfold cancelTask
    split <;> exact ⟨rfl, rfl⟩
  | woken =>
    rw [toShared_arrive]
    exact ⟨rfl, rfl⟩
  | _ => exact ⟨rfl, rfl⟩

/-- **What holds of every state before the monitors are stopped.** -/
structure Served (s : ManagerState) : Prop where
  sound : Sound s
  valid : Valid s
  /-- The monitors are not being stopped. -/
  noStop : ∀ t < s.calls.size, (s.calls t).call ≠ .stopMonitorTasks
  found : s.toShared.Found
  /-- Every monitor's line is in order. -/
  ordered : ∀ e, (s.slot e).Ordered

theorem served_initial : Served initial where
  sound := sound_initial
  valid := valid_initial
  noStop t ht := absurd ht (Nat.not_lt_zero t)
  found e he := absurd he (Nat.not_lt_zero e)
  ordered e := (slot_fresh e).ordered

/-- **The mapping of users and the records are the same thing.** -/
theorem Served.lookup_eq_some_iff (h : Served s) {username : String} :
    s.labs.lookup username = some e ↔ e < s.records.size ∧ (s.records e).username = username := by
  constructor
  · exact valid_of_lookup h.valid.shared
  · rintro ⟨he, rfl⟩
    exact h.found e he

/-- A call in a monitor's line is inside a method of that monitor. -/
theorem Sound.pc_of_mem_line (h : Sound s) {m : Method} (hmem : m ∈ (s.slot e).lock.line) :
    ∃ t p k, t < s.calls.size ∧ (s.calls t).pc = .method e (.inside p) k ∧ p.purpose = m := by
  have hsafe := h.safe e
  have hpc : ∃ t p, (s.slot e).pc t = some p ∧ p.purpose = m := by
    simp only [FifoLock.line, List.mem_map, List.mem_append, Option.mem_toList] at hmem
    obtain ⟨⟨t, m'⟩, hmem, rfl⟩ := hmem
    rcases hmem with hholder | hwaiter
    · rcases (hsafe.holder t m').1 hholder with hpc | ⟨o, hpc | hpc⟩
      · exact ⟨t, _, hpc, rfl⟩
      · exact ⟨t, _, hpc, rfl⟩
      · exact ⟨t, _, hpc, rfl⟩
    · exact ⟨t, _, (hsafe.waiters t m').1 hwaiter, rfl⟩
  obtain ⟨t, p, hpc, hp⟩ := hpc
  replace hpc : slotPcs s.calls e t = some p := hpc
  unfold slotPcs at hpc
  split at hpc
  · next ht =>
    unfold CallPc.inSlot at hpc
    split at hpc
    · next e' p' k hcall =>
      split at hpc
      · next heq =>
        obtain rfl := Option.some.inj hpc
        exact ⟨t, p', k, ht, heq ▸ hcall, hp⟩
      · cases hpc
    · cases hpc
  · cases hpc

/-- A frame of `stop_monitor_tasks` belongs to a call of it. -/
theorem not_mem_line_of_noStop (hsound : Sound s) (hvalid : Valid s)
    (hstop : ∀ t < s.calls.size, (s.calls t).call ≠ .stopMonitorTasks) (e : ℕ) :
    .cancel none ∉ (s.slot e).lock.line := by
  intro hmem
  obtain ⟨t, p, k, ht, hpc, hp⟩ := hsound.pc_of_mem_line hmem
  have hfits := hsound.control.fits t ht e p k hpc
  rw [hp] at hfits
  obtain ⟨rest, rfl⟩ : ∃ rest, k = .stopped rest := by
    cases k with
    | stopped rest => exact ⟨rest, rfl⟩
    | _ => exact absurd hfits id
  have hcall := hvalid.calls t ht
  rw [hpc] at hcall
  exact hstop t ht hcall.2.1

theorem Served.step (h : Served s) (hs : s.step config l = some s')
    (hl : l.stops = false) : Served s' := by
  have hsound := h.sound.step hs
  have hvalid := h.valid.step h.sound hs
  have hmoved : ∀ {t : ℕ} {calls : Heap CallTask} {pc : CallPc}, calls = moved s.calls t pc →
      ∀ u < calls.size, (calls u).call ≠ .stopMonitorTasks := by
    rintro t _ pc rfl u hu
    rw [call_moved]
    exact h.noStop u hu
  have hboth : (∀ t < s'.calls.size, (s'.calls t).call ≠ .stopMonitorTasks) ∧ s'.toShared.Found := by
    cases move_of_step hs with
    | @call c hrun =>
      refine ⟨fun u hu ↦ ?_, h.found⟩
      simp only [calls_tick, calls_begin, Heap.size_alloc, Heap.alloc_apply] at hu ⊢
      split
      · rintro rfl
        cases hl
      · exact h.noStop u (by omega)
    | @block t p r b hturn hpc hb =>
      have hp := h.valid.calls t hturn.2
      rw [hpc] at hp
      refine ⟨hmoved (calls_follow _ _ _), ?_⟩
      · rw [toShared_tick, toShared_follow]
        refine (blockMove_of_eq_some hb).found h.found ?_ ?_
        · rintro rfl
          exact h.noStop t hturn.2 hp.1.symm
        · rintro _ _ rfl
          exact hp.2
    | @acquire t e m k hturn hpc =>
      obtain ⟨p, -, hcalls⟩ := s.calls_arrive t e m k
      refine ⟨hmoved hcalls, ?_⟩
      rw [toShared_tick, toShared_arrive]
      exact h.found
    | @method t e p k r a hturn hpc ha =>
      replace ha := methodMove_of_eq_some ha
      obtain ⟨hlabs, hrecords⟩ := ha.labs_records
      obtain ⟨p', hcalls, -⟩ := ha.calls fun m m' hm hmem ↦
        h.sound.purpose_eq hturn.2 (hm ▸ hpc) hmem
      refine ⟨hmoved hcalls, h.found.congr hlabs (by rw [toShared_tick, hrecords]) fun e ↦ ?_⟩
      rw [toShared_tick, hrecords]
    | @resume t e res k hturn hpc =>
      refine ⟨hmoved (calls_follow _ _ _), ?_⟩
      · rw [toShared_tick, toShared_follow]
        exact (frameMove s e k res).found h.found
    | @op o r f hrun ho hf =>
      refine ⟨?_, h.found.congr (labs_afterOp _ _ _) (by simp) (by simp)⟩
      rw [calls_tick, calls_afterOp]
      exact h.noStop
    | watch => exact ⟨h.noStop, h.found⟩
  refine ⟨hsound, hvalid, hboth.1, hboth.2, fun e ↦ ?_⟩
  have hnamed := not_mem_line_of_noStop hsound hvalid hboth.1 e
  rcases slot_step h.sound hs e with heq | hstep
  · rw [heq]
    exact h.ordered e
  · exact (h.ordered e).step (h.sound.safe e) hstep hnamed

end ManagerState

/-- **Every state before the monitors are stopped is served.** -/
theorem Run.served {config : LabConfig} {τ : List (Transition ManagerState Label)}
    {s : ManagerState} (h : Run config .initial τ s) (hτ : Serving τ) : s.Served :=
  h.invariant_of (P := ManagerState.Served) (C := Stopless)
    (fun _ _ _ hP hab hl ↦ hP.step hab hl) ManagerState.served_initial hτ

end Nublado.Lab
