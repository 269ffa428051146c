import Nublado.Lab.Manager.Effects

/-!
# A `create_lab` that raises an exception

A call that is turned down should leave the user's lab alone. The source stores the new lab only after
the monitor has started the spawn, so that only a successful call replaces what is recorded; but before
it finds out that an operation is in progress, `create_lab` brings the recorded status in line with the
phase of the pod (`refreshState`). That phase may be older than the operation: the pod of a lab that is
being spawned does not exist yet.

`failed_create_iff` says that this refresh is the only thing a call that raises does to the recorded
status and URL: none of its steps changes them exactly if the phase it reads agrees with the status
that is recorded at that moment.
-/

namespace Nublado.Lab

/-- The status and the URL that are recorded of a user's lab. -/
def Shared.glance (sh : Shared) (username : String) : Option (LabStatus × Option String) :=
  (sh.view username).map fun x ↦ (x.status, x.internalUrl)

/-- A lab with this status would get another one from this phase: a missing pod means that the lab has
failed, and a lab that was running has the status of its pod. -/
def PhaseChanges (status : LabStatus) : Option PodPhase → Prop
  | none => status ≠ .failed
  | some p => status = .running ∧ LabStatus.fromPhase p ≠ .running

/-- Call `t` takes the step. -/
def TakenBy (t : ℕ) (x : Transition ManagerState Label) : Prop := ∃ r, x.label = .exec t r

namespace ManagerState

variable {config : LabConfig} {s s' : ManagerState} {l : Label} {t e : ℕ} {username : String}

/-- In this step call `t` learns a phase that does not agree with the status recorded of the user. -/
def RefreshChanges (t : ℕ) (username : String) (x : Transition ManagerState Label) : Prop :=
  ∃ d σ phase, x.label = .exec t (.phase (.phase phase)) ∧
    (x.pre.calls t).pc = .caller (.createPhase d σ) ∧ x.pre.stateOf username = some σ ∧
    PhaseChanges (x.pre.states σ).status phase

/-- Writing the status of the user's lab. -/
theorem glance_setStatus {sh : Shared} {σ : ℕ} (hσ : sh.stateOf username = some σ)
    (status : LabStatus) :
    (sh.setStatus σ status).glance username = sh.glance username ↔
      (sh.states σ).status = status := by
  have hview : sh.view username = some (sh.states σ) := by rw [Shared.view_eq, hσ, Option.map_some]
  simp [Shared.glance, Shared.view_setStatus, hσ, hview, eq_comm]

/-- The refresh keeps the status exactly if the phase agrees with it. -/
theorem glance_refreshState {σ : ℕ} {phase : Option PodPhase} :
    (s.refreshState σ phase).glance username = s.glance username ↔
      ¬ (s.stateOf username = some σ ∧ PhaseChanges (s.states σ).status phase) := by
  by_cases hσ : s.stateOf username = some σ
  · unfold refreshState PhaseChanges
    split
    · simp [glance_setStatus hσ, hσ]
    · next p =>
      split
      · next hrunning => simp [glance_setStatus hσ, hσ, hrunning, eq_comm]
      · next hrunning => simp [hrunning]
  · have hsame : ∀ status, (s.setStatus σ status).glance username = s.glance username := by
      intro status
      rw [Shared.glance, Shared.glance, Shared.view_setStatus, if_neg hσ]
    unfold refreshState
    split
    · simp [hsame, hσ]
    · split <;> simp [hsame, hσ]

theorem glance_of_view {sh sh' : Shared} (h : sh'.view username = sh.view username) :
    sh'.glance username = sh.glance username :=
  congrArg (Option.map fun x : LabState ↦ (x.status, x.internalUrl)) h

/-- Handing a spawn to the monitor does not change what is recorded. -/
theorem glance_createSpawn (hv : s.toShared.Valid) (d : CreateData) (deleteFirst : Bool) :
    (s.createSpawn d e deleteFirst).1.glance username = s.glance username := by
  refine glance_of_view (Shared.view_congr rfl (fun e' ↦ ?_) fun σ hσ ↦ ?_)
  · exact Shared.state_clearEvents _ _ _
  · exact Heap.alloc_of_lt _ _ (hv.stateOf_lt hσ)

/-- The blocks of `create_lab` other than the refresh keep the status and the URL. -/
theorem BlockMove.glance {p : CallerPc} {r : Reply} {b : Shared × Next} (hb : BlockMove s p r b)
    (hv : s.toShared.Valid) {user : GafaelfawrUser} {spec : LabSpecification}
    (hp : p.origin = .createLab user spec) (hphase : ∀ d σ, p ≠ .createPhase d σ) :
    b.1.glance username = s.glance username := by
  cases hb with
  | quiet => rfl
  | ensured hnone => exact glance_of_view (Shared.view_insertLab_none hv hnone _)
  | refreshed => exact absurd rfl (hphase _ _)
  | spawning => exact glance_createSpawn hv _ _
  | @joining _ caller | @aborting _ caller => rfl
  | @deleting _ caller => cases caller <;> cases hp
  | reapBegins h => rcases h with rfl | ⟨since, rfl⟩ <;> cases hp
  | passes | pending | reaping | reapFailed | stopBegins | stopping => cases hp

/-- **A step of a `create_lab` that does not succeed** keeps the status and the URL, unless it is a
refresh that does not agree with them. -/
theorem Valid.glance_step (h : Valid s) {r : Reply} (hs : s.step config (.exec t r) = some s')
    {user : GafaelfawrUser} {spec : LabSpecification} (hcall : (s.calls t).call = .createLab user spec)
    (hraised : (s'.calls t).pc ≠ .finished (.ok ())) :
    s'.glance username = s.glance username ↔ ¬ RefreshChanges t username ⟨s, .exec t r, s'⟩ := by
  -- every step but the refresh
  have hother : (∀ d σ, (s.calls t).pc ≠ .caller (.createPhase d σ)) →
      s'.glance username = s.glance username →
      (s'.glance username = s.glance username ↔
        ¬ RefreshChanges t username ⟨s, .exec t r, s'⟩) := by
    rintro hpc hsame
    refine iff_of_true hsame ?_
    rintro ⟨d, σ, phase, -, hpc', -⟩
    exact hpc d σ hpc'
  have hno : ∀ {e p k}, (s.calls t).pc = .method e p k →
      ∀ d σ, (s.calls t).pc ≠ .caller (.createPhase d σ) := by
    intro e p k hpc d σ hpc'
    rw [hpc] at hpc'
    cases hpc'
  cases move_of_step hs with
  | @block _ p _ b hturn hpc hb =>
    have hvalid := h.calls t hturn.2
    rw [hpc, hcall] at hvalid
    by_cases hphase : ∃ d σ, p = .createPhase d σ
    · obtain ⟨d, σ, rfl⟩ := hphase
      cases r with
      | phase r =>
        cases r with
        | phase phase =>
          obtain rfl := Option.some.inj hb
          rw [toShared_tick, toShared_follow, glance_refreshState]
          refine not_congr ⟨fun hσ ↦ ⟨d, σ, phase, rfl, hpc, hσ⟩, ?_⟩
          rintro ⟨d', σ', phase', hl, hpc', hσ⟩
          dsimp only at hl hpc' hσ
          rw [hpc] at hpc'
          cases hl
          cases hpc'
          exact hσ
        | kubernetesError | timeout | error =>
          obtain rfl := Option.some.inj hb
          refine iff_of_true (by rw [toShared_tick, toShared_follow]) ?_
          rintro ⟨d', σ', phase', hl, -⟩
          cases hl
      | _ => cases hb
    · refine hother ?_ ?_
      · rintro d σ hpc'
        rw [hpc] at hpc'
        cases hpc'
        exact hphase ⟨d, σ, rfl⟩
      · rw [toShared_tick, toShared_follow]
        exact (blockMove_of_eq_some hb).glance h.shared hvalid.1 fun d σ hp ↦ hphase ⟨d, σ, hp⟩
  | acquire _ hpc => exact hother (hno hpc) (by rw [toShared_tick, toShared_arrive])
  | method _ hpc ha =>
    exact hother (hno hpc) (glance_of_view ((methodMove_of_eq_some ha).view username))
  | @resume _ e res k hturn hpc =>
    refine hother (hno hpc) ?_
    have hvalid := h.calls t hturn.2
    rw [hpc, hcall] at hvalid
    have hof := hvalid.2.1
    rw [calls_tick, calls_follow, pc_moved, if_pos rfl] at hraised
    rw [toShared_tick, toShared_follow]
    have hmove := frameMove s e k res
    generalize s.frameBlock e k res = b at hmove hraised ⊢
    cases hmove with
    | quiet => rfl
    | recorded => exact absurd rfl hraised
    | @aborted _ caller | @started _ caller | @finished _ caller => cases caller <;> cases hof
    | reaped => cases hof

end ManagerState

open ManagerState

variable {config : LabConfig} {τ : List (Transition ManagerState Label)} {s s' : ManagerState}
  {t : ℕ}

/-- **A failed `create_lab` leaves the user's lab alone exactly if every phase it reads agrees with the
status on record.** Whenever a call of `create_lab` has raised an exception: none of its steps has
changed the status or the URL recorded of the user, if and only if it has not learnt a phase from which
the recorded status would be another. -/
theorem failed_create_iff (hrun : Run config .initial τ s) {user : GafaelfawrUser}
    {spec : LabSpecification} {x : LabException} (ht : t < s.calls.size)
    (hcall : (s.calls t).call = .createLab user spec)
    (hraised : (s.calls t).pc = .finished (.error x)) :
    (∀ y ∈ τ, TakenBy t y → y.post.glance user.username = y.pre.glance user.username) ↔
      ∀ y ∈ τ, ¬ RefreshChanges t user.username y := by
  -- what each step of the call does
  have hstep : ∀ y ∈ τ, TakenBy t y → (y.post.glance user.username = y.pre.glance user.username ↔
      ¬ RefreshChanges t user.username y) := by
    rintro ⟨a, l, b⟩ hy ⟨r, rfl⟩
    obtain ⟨hab, τ₁, τ₂, rfl, hpre, hpost⟩ := hrun.mem_elim hy
    have hta : t < a.calls.size := turn_of_step hab
    obtain ⟨htb, hcallb, -⟩ := call_step hab hta
    obtain ⟨-, hcalls, hfinished⟩ := Run.call_keeps hpost htb
    refine (Run.valid hpre).glance_step hab ((hcallb.symm.trans hcalls.symm).trans hcall) ?_
    intro hok
    rw [hfinished _ hok] at hraised
    cases hraised
  constructor
  · intro h y hy hchanges
    obtain ⟨d, σ, phase, hl, -⟩ := id hchanges
    exact (hstep y hy ⟨_, hl⟩).1 (h y hy ⟨_, hl⟩) hchanges
  · intro h y hy htaken
    exact (hstep y hy htaken).2 (h y hy)

/-- Call `t` is a `create_lab` of a user with a lab, which reads the phase of its pod. -/
def Sample.createAgain (t : ℕ) (phase : Option PodPhase) : List Label :=
  [.call (.createLab Sample.user Sample.spec), .exec t .go, .exec t (.image (.ok Sample.image)),
    .exec t (.phase (.phase phase)), .exec t .go]

/-- What a `create_lab` raises while a spawn is in progress. -/
def Sample.conflict : LabException :=
  .operationConflict "Operation in progress for rachel: spawn"

/-- What a read of the pod can say other than that it is running. -/
def Sample.otherPhases : List (Option PodPhase) :=
  [none, some .pending, some .succeeded, some .failed, some .unknown]

set_option synthInstance.maxSize 256 in
/-- A second `create_lab` once the pod is running. -/
theorem failed_create_sample : ∃ τ s, Run Sample.config .initial τ s ∧
    (s.calls 1).pc = .finished (.error Sample.conflict) ∧
    ∀ y ∈ τ, TakenBy 1 y → y.post.glance "rachel" = y.pre.glance "rachel" := by
  obtain ⟨τ, s, hrun, hlt, hcall, hpc, hphases⟩ := Sample.exists_run
    (Sample.create 0 ++ Sample.build 0 ++ Sample.start 0 ++ Sample.createAgain 1 (some .running))
    (fun τ s ↦ 1 < s.calls.size ∧ (s.calls 1).call = .createLab Sample.user Sample.spec ∧
      (s.calls 1).pc = .finished (.error Sample.conflict) ∧
      ∀ y ∈ τ, ∀ phase ∈ Sample.otherPhases, y.label ≠ .exec 1 (.phase (.phase phase)))
    (by decide +kernel)
  refine ⟨τ, s, hrun, hpc, (failed_create_iff hrun hlt hcall hpc).2 ?_⟩
  rintro y hy ⟨d, σ, phase, hl, -, -, hchanges⟩
  have hrunning : phase = some .running := by
    have hphase := hphases y hy phase
    rcases phase with _ | p
    · simp [hl, Sample.otherPhases] at hphase
    · cases p <;> simp_all [Sample.otherPhases]
  subst hrunning
  exact hchanges.2 rfl

set_option synthInstance.maxSize 256 in
/-- A second `create_lab` while the spawn is pending: the pod does not exist yet, so the call marks the
lab as failed before it raises the conflict. -/
theorem failed_create_changes : ∃ τ s, Run Sample.config .initial τ s ∧ Serving τ ∧
    (s.calls 1).call = .createLab Sample.user Sample.spec ∧
    (∃ x ∈ τ, (x.pre.monitors 0).operation = some 0 ∧ x.pre.labs.lookup "rachel" = some 0 ∧
      x.label = .exec 1 .go ∧ (x.post.calls 1).pc = .finished (.error Sample.conflict)) ∧
    ¬ ∀ y ∈ τ, TakenBy 1 y → y.post.glance "rachel" = y.pre.glance "rachel" := by
  obtain ⟨τ, s, hrun, hserving, hcall, hraised, y, hy, hl, hne⟩ := Sample.exists_run
    (Sample.create 0 ++ Sample.createAgain 1 none)
    (fun τ s ↦ Serving τ ∧ (s.calls 1).call = .createLab Sample.user Sample.spec ∧
      (∃ x ∈ τ, (x.pre.monitors 0).operation = some 0 ∧ x.pre.labs.lookup "rachel" = some 0 ∧
        x.label = .exec 1 .go ∧ (x.post.calls 1).pc = .finished (.error Sample.conflict)) ∧
      ∃ y ∈ τ, y.label = .exec 1 (.phase (.phase none)) ∧
        y.post.glance "rachel" ≠ y.pre.glance "rachel")
    (by decide +kernel)
  exact ⟨τ, s, hrun, hserving, hcall, hraised, fun h ↦ hne (h y hy ⟨_, hl⟩)⟩

end Nublado.Lab
