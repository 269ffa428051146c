import Nublado.Lab.Manager.Flow
import Nublado.Lab.Manager.Serving

/-!
# What a step changes

The parts of the manager that callers look at, and the steps that change them.

* A call moves only when it is its turn (`call_step`).
* The operation on record in a monitor changes in two ways (`RecordMove`): a request that finds no
  operation starts one, and a method that has collected the operation on record clears it.
* What is recorded of a user (`Shared.view`) is changed by the manager's own methods and by
  operations, never inside a method of a monitor (`MethodMove.view`).
* The mapping of users only grows before the monitors are stopped (`Served.lookup_step`), and a new
  record's monitor has no operation (`Served.idle_of_new`).
-/

namespace Nublado.Lab

namespace ManagerState

variable {config : LabConfig} {s s' : ManagerState} {l : Label} {t e : ℕ}

/-- **A call moves only when it takes a step.** -/
theorem call_step (hs : s.step config l = some s') {u : ℕ} (hu : u < s.calls.size) :
    u < s'.calls.size ∧ (s'.calls u).call = (s.calls u).call ∧
      ((s'.calls u).pc = (s.calls u).pc ∨ ∃ r, l = .exec u r) := by
  have hmoved : ∀ {t : ℕ} {pc : CallPc} {r : Reply}, s'.calls = moved s.calls t pc →
      l = .exec t r → u < s'.calls.size ∧ (s'.calls u).call = (s.calls u).call ∧
        ((s'.calls u).pc = (s.calls u).pc ∨ ∃ r, l = .exec u r) := by
    intro t pc r hcalls hl
    rw [hcalls]
    refine ⟨hu, call_moved _ _ _ _, ?_⟩
    rw [pc_moved]
    split
    · next hut => exact Or.inr ⟨r, by rw [hl, hut]⟩
    · exact Or.inl rfl
  cases move_of_step hs with
  | call =>
    rw [calls_tick, calls_begin, Heap.alloc_of_lt _ _ hu]
    exact ⟨hu.trans (Nat.lt_succ_self _), rfl, Or.inl rfl⟩
  | block | resume => exact hmoved (calls_follow _ _ _) rfl
  | @acquire t e m k =>
    obtain ⟨p, -, hcalls⟩ := s.calls_arrive t e m k
    exact hmoved hcalls rfl
  | method _ _ ha =>
    obtain ⟨pc, hcalls, -⟩ := (methodMove_of_eq_some ha).calls_moved
    exact hmoved hcalls rfl
  | op => simp [hu]
  | watch => exact ⟨hu, rfl, Or.inl rfl⟩

/-- **A new call** is at its beginning. -/
theorem new_call (hs : s.step config l = some s') {u : ℕ} (hu : u < s'.calls.size)
    (hnew : s.calls.size ≤ u) : ∃ c, l = .call c ∧ s'.calls u = ⟨c, .caller c.start⟩ := by
  have hsize : s'.calls.size = s.calls.size → ∃ c, l = .call c ∧
      s'.calls u = ⟨c, .caller c.start⟩ := fun hsize ↦ by omega
  cases move_of_step hs with
  | @call c =>
    simp only [calls_tick, calls_begin, Heap.size_alloc] at hu
    refine ⟨c, rfl, ?_⟩
    rw [calls_tick, calls_begin, Heap.alloc_apply, if_pos (by omega)]
  | block | resume => exact hsize (by simp)
  | @acquire t e m k =>
    obtain ⟨p, -, hcalls⟩ := s.calls_arrive t e m k
    exact hsize (by rw [calls_tick, hcalls, size_moved])
  | method _ _ ha =>
    obtain ⟨pc, hcalls, -⟩ := (methodMove_of_eq_some ha).calls_moved
    exact hsize (by rw [calls_tick, hcalls, size_moved])
  | op => exact hsize (by simp)
  | watch => exact hsize rfl

theorem turn_of_step {r : Reply} (hs : s.step config (.exec t r) = some s') : t < s.calls.size := by
  cases move_of_step hs with
  | block hturn | acquire hturn | method hturn | resume hturn => exact hturn.2

/-- A call that has ended takes no more steps. -/
theorem not_finished_of_step {r : Reply} (hs : s.step config (.exec t r) = some s')
    (x : Except LabException Unit) : (s.calls t).pc ≠ .finished x := by
  intro hx
  cases move_of_step hs with
  | block _ hpc | acquire _ hpc | method _ hpc | resume _ hpc =>
    rw [hpc] at hx
    cases hx

/-! ### The operation on record -/

/-- **How the operation on record in monitor `e` can change.** -/
inductive RecordMove (s : ManagerState) (e : ℕ) : Label → ManagerState → Prop
  | same {l : Label} {s' : ManagerState} : (s'.monitors e).operation = (s.monitors e).operation →
      RecordMove s e l s'
  /-- A request finds no operation and starts one. -/
  | started {t : ℕ} {req : Request} {k : Frame} : t < s.calls.size →
      (s.calls t).pc = .method e (.inside (.critical (.monitor req))) k →
      (s.monitors e).operation = none →
      RecordMove s e (.exec t .go) ((s.startOperation e req).leave t e k .ok).tick
  /-- A method that has collected the operation on record clears it. -/
  | cleared {t o : ℕ} {m : Method} {p : SlotPc Request ℕ} {k : Frame} {r : Reply} :
      t < s.calls.size → (s.calls t).pc = .method e (.inside p) k →
      p = .awaitTask m o ∨ p = .report m o → m = .reap o ∨ (∃ seen, m = .cancel seen) →
      (s.monitors e).operation = some o → (s.ops o).outcome.isSome = true →
      RecordMove s e (.exec t r) ((s.clearOperation e m o).leave t e k .ok).tick

/-- Asking for a lock leaves the records alone. -/
theorem operation_arrive {e' : ℕ} (m : Method) (k : Frame) :
    ((s.arrive t e' m k).monitors e).operation = (s.monitors e).operation := by
  unfold arrive
  split <;>
  · simp only [setPc, monitors_setMonitor]
    split
    · next hee => rw [hee]
    · rfl

theorem operation_clearOperation_of_ne {m : Method} {o e' : ℕ} (hne : e' ≠ e) :
    ((s.clearOperation e m o).monitors e').operation = (s.monitors e').operation := by
  simp [clearOperation, hne]

theorem operation_clearOperation {m : Method} {o : ℕ} :
    ((s.clearOperation e m o).monitors e).operation = (s.slot e).collected m o := by
  cases m <;> simp [clearOperation, Slot.collected, slot]

/-- A method that has seen operation `o` end leaves. -/
theorem Sound.recordMove_collected (h : Sound s) {o : ℕ} {m : Method} {p : SlotPc Request ℕ}
    {k : Frame} {r : Reply} (ht : t < s.calls.size) {e' : ℕ}
    (hpc : (s.calls t).pc = .method e' (.inside p) k) (hp : p = .awaitTask m o ∨ p = .report m o)
    (hout : (s.ops o).outcome.isSome = true) :
    RecordMove s e (.exec t r) ((s.clearOperation e' m o).leave t e' k .ok).tick := by
  rcases eq_or_ne e e' with rfl | hne
  · have hat := pc_slot ht hpc
    have hat' : (s.slot e).pc t = some (.awaitTask m o) ∨ (s.slot e).pc t = some (.report m o) := by
      rcases hp with rfl | rfl
      · exact Or.inl hat
      · exact Or.inr hat
    by_cases hrec : (s.monitors e).operation = some o
    · refine .cleared ht hpc hp ?_ hrec hout
      rcases (h.safe e).awaits t m o hat' with hm | ⟨hm, -⟩
      · exact Or.inl hm
      · exact Or.inr hm
    · rcases (h.safe e).awaits t m o hat' with rfl | ⟨-, hrec'⟩
      · refine .same ?_
        simp only [monitors_tick, monitors_leave, if_true, operation_clearOperation,
          Slot.collected]
        exact if_neg hrec
      · exact absurd hrec' hrec
  · refine .same ?_
    simp [hne, operation_clearOperation_of_ne hne]

/-- **Every step leaves a monitor's record alone, starts an operation or clears it.** -/
theorem Sound.recordMove (h : Sound s) (hs : s.step config l = some s') (e : ℕ) :
    RecordMove s e l s' := by
  cases move_of_step hs with
  | call => exact .same rfl
  | block | resume => exact .same (by rw [monitors_tick, monitors_follow])
  | acquire => exact .same (operation_arrive _ _)
  | @method t e' p k r a hturn hpc ha =>
    cases methodMove_of_eq_some ha with
    | @started req hnone =>
      rcases eq_or_ne e e' with rfl | hne
      · exact .started hturn.2 hpc hnone
      · exact .same (by simp [hne])
    | collected hout =>
      refine h.recordMove_collected hturn.2 hpc (Or.inl rfl) ?_
      rcases hout with hout | ⟨hout, -⟩ <;> simp [hout]
    | @reported m o =>
      refine h.recordMove_collected hturn.2 hpc (Or.inr rfl) ?_
      have hreports := (h.safe e').reports t m o (pc_slot hturn.2 hpc)
      have hborn := (h.safe e').born_of_awaits (Or.inr (pc_slot hturn.2 hpc))
      rwa [outcome_slot hborn] at hreports
    | woken => exact .same (operation_arrive _ _)
    | aborting => exact .same (by simp)
    | granted | conflict | absent | joined | collecting | idle | reporting | interrupted =>
      refine .same ?_
      by_cases hee : e = e' <;> simp [hee]
  | op => exact .same (by simp)
  | watch => exact .same rfl

/-! ### Operations that have ended -/

/-- An operation that has ended has settled. -/
theorem Sound.settled (h : Sound s) (hs : s.step config l = some s') (ho : o < s.ops.size)
    {r : TaskOutcome} (hr : (s.ops o).outcome = some r) :
    (s'.ops o).outcome = some r ∧ (s'.ops o).complete = (s.ops o).complete := by
  obtain ⟨ho', hentry⟩ := op_field_step RunningOperation.entry (fun _ _ ↦ rfl) (fun _ _ ↦ rfl) hs ho
  have hborn : (s.slot (s.ops o).entry).born o := ⟨ho, rfl⟩
  have hborn' : (s'.slot (s.ops o).entry).born o := ⟨ho', hentry⟩
  rw [← outcome_slot hborn', ← complete_slot hborn', ← complete_slot hborn]
  rw [← outcome_slot hborn] at hr
  rcases slot_step h hs (s.ops o).entry with heq | hstep
  · rw [heq]
    exact ⟨hr, rfl⟩
  · exact (h.safe _).settled hstep hr

/-- An operation ends in a step of its own task. -/
theorem ends_of_outcome (hs : s.step config l = some s') (ho : o < s.ops.size)
    (hpre : (s.ops o).outcome = none) (hpost : (s'.ops o).outcome ≠ none) :
    ∃ r f, l = .op o r ∧ (s.opFrame o).opBlock (s.opContext config o) r = some f ∧
      f.task.ended = true ∧ s' = (s.afterOp o f).tick := by
  cases move_of_step hs with
  | call => exact absurd hpre hpost
  | block | acquire | resume => exact absurd hpre (by simpa using hpost)
  | method _ _ ha =>
    cases methodMove_of_eq_some ha with
    | started =>
      refine absurd hpre ?_
      simpa [Heap.alloc_of_lt _ _ ho] using hpost
    | aborting | woken => exact absurd hpre (by simpa using hpost)
    | _ => exact absurd hpre hpost
  | @op o' r f _ _ hf =>
    rw [ops_tick, outcome_afterOp] at hpost
    split at hpost
    · next hoo =>
      subst hoo
      refine ⟨r, f, rfl, hf, ?_, rfl⟩
      rw [← OpTask.isSome_outcome]
      exact Option.isSome_iff_ne_none.2 hpost
    · exact absurd hpre hpost
  | @watch o' r f _ _ hf =>
    have hsame : ((s.applyFrame o' f).ops o).outcome = (s.ops o).outcome :=
      Heap.modify_field RunningOperation.outcome s.ops o' o (fun x ↦ { x with task := f.task })
        (by simp only [RunningOperation.outcome, pc_of_watchBlock hf]; rfl)
    exact absurd (hsame.trans hpre) hpost

/-! ### The mapping of users -/

/-- Before the monitors are stopped no user is lost. -/
theorem Served.lookup_step (h : Served s) (hs : s.step config l = some s') (hl : l.stops = false)
    {username : String} (he : s.labs.lookup username = some e) :
    s'.labs.lookup username = some e := by
  have hevolves := h.valid.evolves_step hs
  obtain ⟨hlt, huser⟩ := h.lookup_eq_some_iff.1 he
  exact (h.step hs hl).lookup_eq_some_iff.2
    ⟨hlt.trans_le hevolves.records, (hevolves.username e hlt).trans huser⟩

/-- A monitor with an operation belongs to a record. -/
theorem Served.record_of_operation (h : Served s) {o : ℕ}
    (ho : (s.monitors e).operation = some o) :
    o < s.ops.size ∧ (s.ops o).entry = e ∧ e < s.records.size := by
  obtain ⟨hlt, hentry⟩ := (h.sound.safe e).recorded o ho
  exact ⟨hlt, hentry, hentry ▸ (h.valid.ops o hlt).entry⟩

/-- A user who is new in a step has no operation. -/
theorem Served.idle_of_new (h : Served s) (hs : s.step config l = some s') (hl : l.stops = false)
    {username : String} (hnone : s.labs.lookup username = none)
    (he : s'.labs.lookup username = some e) : (s.monitors e).operation = none := by
  by_contra hop
  obtain ⟨o, ho⟩ := Option.ne_none_iff_exists'.1 hop
  obtain ⟨-, -, hlt⟩ := h.record_of_operation ho
  have huser := ((h.step hs hl).lookup_eq_some_iff.1 he).2
  rw [(h.valid.evolves_step hs).username e hlt] at huser
  have := h.found e hlt
  rw [huser, hnone] at this
  cases this

end ManagerState

/-! ### What is recorded of a user -/

namespace Shared

variable (sh : Shared) (username : String)

/-- The lab recorded of a user. -/
def view : Option LabState := (sh.labs.lookup username).bind sh.recorded

/-- The reference to that lab. -/
def stateOf : Option ℕ := (sh.labs.lookup username).bind fun e ↦ (sh.records e).state

theorem view_eq : sh.view username = (sh.stateOf username).map sh.states := by
  rw [view, stateOf, Option.map_bind]
  rfl

variable {sh username}

/-- What is recorded depends on the mapping, on the lab that a record refers to and on that lab. -/
theorem view_congr {sh' : Shared} (hlabs : sh'.labs = sh.labs)
    (hrecords : ∀ e, (sh'.records e).state = (sh.records e).state)
    (hstates : ∀ σ, sh.stateOf username = some σ → sh'.states σ = sh.states σ) :
    sh'.view username = sh.view username := by
  have hstate : sh'.stateOf username = sh.stateOf username := by
    simp only [stateOf, hlabs, hrecords]
  rw [view_eq, view_eq, hstate]
  rcases hσ : sh.stateOf username with _ | σ
  · rfl
  · exact congrArg some (hstates σ hσ)

theorem states_setStatus_self (σ : ℕ) (status : LabStatus) :
    (sh.setStatus σ status).states σ = { sh.states σ with status := status } :=
  Heap.modify_self sh.states σ fun x ↦ { x with status := status }

theorem states_setStatus_of_ne {σ σ' : ℕ} (hne : σ' ≠ σ) (status : LabStatus) :
    (sh.setStatus σ status).states σ' = sh.states σ' :=
  Heap.modify_of_ne sh.states (fun x ↦ { x with status := status }) hne

/-- Writing the status of a lab. -/
theorem view_setStatus (σ : ℕ) (status : LabStatus) :
    (sh.setStatus σ status).view username =
      if sh.stateOf username = some σ then
        (sh.view username).map fun x ↦ { x with status := status }
      else sh.view username := by
  rw [view_eq, view_eq, show (sh.setStatus σ status).stateOf username = sh.stateOf username from rfl]
  split
  · next hσ =>
    rw [hσ]
    exact congrArg some (states_setStatus_self _ _)
  · next hσ =>
    rcases hσ' : sh.stateOf username with _ | σ'
    · rfl
    · refine congrArg some (states_setStatus_of_ne ?_ _)
      rintro rfl
      exact hσ hσ'

/-- The lab on record has been created. -/
theorem Valid.stateOf_lt (h : sh.Valid) {σ : ℕ} (hσ : sh.stateOf username = some σ) :
    σ < sh.states.size := by
  obtain ⟨e, he, hσ⟩ := Option.bind_eq_some_iff.1 hσ
  exact h.state e (h.labs _ (mem_of_lookup he)).1 σ hσ

/-- A new record without a lab changes nothing. -/
theorem view_insertLab_none (h : sh.Valid) {username' : String}
    (hnone : sh.labs.lookup username' = none) (now : ℕ) :
    (sh.insertLab username' none now).view username = sh.view username := by
  rcases he : sh.labs.lookup username with _ | e
  · rw [view, view, he]
    rcases hnew : (sh.insertLab username' none now).labs.lookup username with _ | e
    · rfl
    · rcases (lookup_concat_eq_some_iff hnone).1 hnew with h | ⟨-, rfl⟩
      · rw [he] at h
        cases h
      · simp [recorded, insertLab]
  · have hnew : (sh.insertLab username' none now).labs.lookup username = some e :=
      (lookup_concat_eq_some_iff hnone).2 (Or.inl he)
    have hlt := (h.labs _ (mem_of_lookup he)).1
    rw [view, view, he, hnew, Option.bind_some, Option.bind_some, recorded, recorded]
    simp only [insertLab]
    rw [Heap.alloc_of_lt _ _ hlt]

end Shared

namespace ManagerState

/-- A method of a monitor does not touch what is recorded of a user. -/
theorem MethodMove.view {s a : ManagerState} {t e : ℕ} {k : Frame} {p : SlotPc Request ℕ}
    {r : Reply} (ha : MethodMove s t e k p r a) (username : String) :
    a.view username = s.view username := by
  obtain ⟨hlabs, hrecords⟩ := ha.labs_records
  refine Shared.view_congr hlabs (fun e ↦ by rw [hrecords]) fun σ _ ↦ ?_
  cases ha with
  | aborting =>
    rw [toShared_inside]
    unfold cancelTask
    split <;> rfl
  | woken => rw [toShared_arrive]
  | _ => rfl

end ManagerState

open ManagerState in
/-- A call stays what it is, and once it has ended it stays where it is. -/
theorem Run.call_keeps {config : LabConfig} {τ : List (Transition ManagerState Label)}
    {s s' : ManagerState} {t : ℕ} (hrun : Run config s τ s') (ht : t < s.calls.size) :
    t < s'.calls.size ∧ (s'.calls t).call = (s.calls t).call ∧
      ∀ x, (s.calls t).pc = .finished x → (s'.calls t).pc = .finished x := by
  refine hrun.invariant (P := fun a ↦ t < a.calls.size ∧ (a.calls t).call = (s.calls t).call ∧
    ∀ x, (s.calls t).pc = .finished x → (a.calls t).pc = .finished x) ?_ ⟨ht, rfl, fun _ ↦ id⟩
  rintro a l b ⟨hta, hcall, hfinished⟩ hab
  obtain ⟨htb, hcall', hpc⟩ := call_step hab hta
  refine ⟨htb, hcall'.trans hcall, fun x hx ↦ ?_⟩
  rcases hpc with hpc | ⟨r, rfl⟩
  · exact hpc.trans (hfinished x hx)
  · exact absurd (hfinished x hx) (not_finished_of_step hab x)

end Nublado.Lab
