import Nublado.Lab.Manager.Validity

/-!
# Where calls go

The control flow of the manager's own methods: `Goto` has one constructor for each edge between two
of their program points, with the condition under which it is taken. `caller_step` says how a call
can come to be at such a point: it was there already, it has just been made, it followed an edge, or
it has returned from a method of a monitor, which leads into one of the loops that `resumes` names.
-/

namespace Nublado.Lab

namespace CallerPc

/-- The points of the reaper and of `stop_monitor_tasks`. -/
def service : CallerPc → Bool
  | .reapStart | .reapWait _ | .reapWoken | .reapScan _ | .reapReport .. | .stopStart
  | .stopScan _ => true
  | _ => false

/-- The points to which a call returns from a monitor's method. -/
def resumes : CallerPc → Bool
  | .reconcileCompleted _ | .reconcilePending _ | .reapScan _ | .reapReport .. | .stopScan _ => true
  | _ => false

end CallerPc

namespace ManagerState

variable {config : LabConfig} {s s' : ManagerState} {l : Label} {t u e : ℕ}

/-- **The edges between program points of the manager's methods.** -/
inductive Goto (config : LabConfig) (s : ManagerState) : CallerPc → Reply → CallerPc → Prop
  | image {user : GafaelfawrUser} {spec : LabSpecification} : createAllowed user = .ok () →
      Goto config s (.createStart user spec) .go (.createImage user spec)
  /-- The user has no lab on record. -/
  | unknown {user : GafaelfawrUser} {spec : LabSpecification} {r : Except LabException RSPImage}
      {d : CreateData} : r.bind (createResources config user spec) = .ok d →
      (s.labs.lookup d.user.username).bind (fun e ↦ (s.records e).state) = none →
      Goto config s (.createImage user spec) (.image r) (.createCheck d none)
  | known {user : GafaelfawrUser} {spec : LabSpecification} {r : Except LabException RSPImage}
      {d : CreateData} {σ : ℕ} : r.bind (createResources config user spec) = .ok d →
      (s.labs.lookup d.user.username).bind (fun e ↦ (s.records e).state) = some σ →
      Goto config s (.createImage user spec) (.image r) (.createPhase d σ)
  | refreshed {d : CreateData} {σ : ℕ} {phase : Option PodPhase} :
      Goto config s (.createPhase d σ) (.phase (.phase phase)) (.createCheck d (some σ))
  | unread {d : CreateData} {σ : ℕ} {r : PhaseReply} : r = .kubernetesError ∨ r = .timeout →
      Goto config s (.createPhase d σ) (.phase r) (.createReport d σ)
  | reported {d : CreateData} {σ : ℕ} :
      Goto config s (.createReport d σ) .reported (.createCheck d (some σ))
  /-- A reconcile goes on after a user without a lab. -/
  | gone {username : String} {rest : List (String × ℕ)} :
      Goto config s (.deleteStart username (.reconcile rest)) .go (.reconcileCompleted rest)
  | list : Goto config s .reconcileStart .go (.reconcileList s.clock)
  | listed {cutoff : ℕ} {names : List String} :
      Goto config s (.reconcileList cutoff) (.namespaces (.ok names))
        (.reconcileGather cutoff (names.filterMap config.usernameOf) [])
  | gathered {cutoff : ℕ} {observed : List (String × LabState)} :
      Goto config s (.reconcileGather cutoff [] observed) .go (.reconcilePass cutoff observed)
  | read {cutoff : ℕ} {username : String} {rest : List String}
      {observed : List (String × LabState)} :
      Goto config s (.reconcileGather cutoff (username :: rest) observed) .go
        (.reconcileRead cutoff username rest observed)
  | observed {cutoff : ℕ} {username : String} {rest : List String}
      {observed : List (String × LabState)} {x : LabState} :
      Goto config s (.reconcileRead cutoff username rest observed) (.labObjects (.ok (some x)))
        (.reconcileGather cutoff rest (dictInsert observed username x))
  | busy {cutoff : ℕ} {username : String} {rest : List String}
      {observed : List (String × LabState)} :
      ((s.labs.lookup username).any fun e ↦ s.modifiedSince e cutoff) = true →
      Goto config s (.reconcileRead cutoff username rest observed) (.labObjects (.ok none))
        (.reconcileGather cutoff rest observed)
  | purge {cutoff : ℕ} {username : String} {rest : List String}
      {observed : List (String × LabState)} :
      ((s.labs.lookup username).any fun e ↦ s.modifiedSince e cutoff) = false →
      Goto config s (.reconcileRead cutoff username rest observed) (.labObjects (.ok none))
        (.reconcilePurge cutoff username rest observed)
  | purged {cutoff : ℕ} {username : String} {rest : List String}
      {observed : List (String × LabState)} :
      Goto config s (.reconcilePurge cutoff username rest observed) (.done (.ok ()))
        (.reconcileGather cutoff rest observed)
  | passed {cutoff : ℕ} {observed : List (String × LabState)} {pending : List String} :
      Goto config s (.reconcilePass cutoff observed) .go (.reconcilePending pending)
  | skipped {username : String} {rest : List String} :
      Goto config s (.reconcilePending (username :: rest)) .go (.reconcilePending rest)
  | monitored : Goto config s (.reconcilePending []) .go (.reconcileCompleted s.labs)
  | kept {p : String × ℕ} {rest : List (String × ℕ)} :
      Goto config s (.reconcileCompleted (p :: rest)) .go (.reconcileCompleted rest)
  | cleaned {username : String} {i : ℕ} {rest : List (String × ℕ)} :
      Goto config s (.reconcileCompleted ((username, i) :: rest)) .go
        (.deleteStart username (.reconcile rest))
  | counted : Goto config s (.reconcileCompleted []) .go .reconcilePublish
  | service {p q : CallerPc} {r : Reply} : q.service = true → Goto config s p r q

theorem eq_of_deleteReturn {caller : DeleteCaller} {r : Except LabException Unit} {q : CallerPc}
    (h : deleteReturn caller r = .goto q) :
    ∃ rest, caller = .reconcile rest ∧ q = .reconcileCompleted rest := by
  unfold deleteReturn at h
  split at h <;> cases h <;> exact ⟨_, rfl, rfl⟩

theorem goto_deleteStart {username : String} {caller : DeleteCaller} {q : CallerPc}
    (h : (s.deleteStart username caller).2 = .goto q) :
    Goto config s (.deleteStart username caller) .go q := by
  have hgone : ∀ {r}, deleteReturn caller r = .goto q →
      Goto config s (.deleteStart username caller) .go q := by
    intro r hr
    obtain ⟨rest, rfl, rfl⟩ := eq_of_deleteReturn hr
    exact .gone
  unfold deleteStart at h
  split at h
  · exact hgone h
  · next e _ =>
    split at h
    · exact hgone h
    · cases h
    · cases h
    · next hσ _ =>
      rw [deleteProceed_of_some hσ] at h
      cases h

theorem service_reapLoop {sh : Shared} {q : CallerPc} (h : reapLoop sh = .goto q) :
    q.service = true := by
  unfold reapLoop at h
  split at h <;> cases h <;> rfl

theorem service_reapScan {loop : ReapLoop} {q : CallerPc} (h : s.reapScan loop = .goto q) :
    q.service = true := by
  unfold reapScan at h
  split at h
  · cases h
  · split at h
    · exact service_reapLoop h
    · split at h <;> cases h
      rfl

/-- `create_lab` starts its spawn or raises an exception. -/
theorem goto_createCheck (d : CreateData) (state : Option ℕ) (q : CallerPc) :
    (s.createCheck d state).2 ≠ .goto q := by
  unfold createCheck
  dsimp only
  split
  · simp
  · split
    · simp
    · split <;> simp [createSpawn]

/-- **Every block that stays in the manager's methods follows an edge.** -/
theorem goto_of_callBlock {p q : CallerPc} {r : Reply} {b : Shared × Next}
    (hb : s.callBlock config p r = some b) (hq : b.2 = .goto q) : Goto config s p r q := by
  revert hb
  fun_cases callBlock config s p r
  all_goals intro hb
  all_goals first | (cases hb; done) | obtain rfl := Option.some.inj hb
  all_goals first
    | (cases hq; done)
    | (cases hq
       first
         | exact .refreshed | exact .unread (Or.inl rfl) | exact .unread (Or.inr rfl)
         | exact .reported | exact .list | exact .listed | exact .gathered | exact .read
         | exact .observed | exact .purged | exact .passed | exact .monitored | exact .counted
         | exact .service rfl | skip)
    | skip
  · next hallowed => exact .image hallowed
  · next hd =>
    unfold readLabState at hq
    dsimp only at hq
    split at hq <;> cases hq
    · next hnone => exact .unknown hd hnone
    · next hsome => exact .known hd hsome
  · exact absurd hq (goto_createCheck _ _ _)
  · exact goto_deleteStart hq
  · next hbusy => exact .busy hbusy
  · next hidle => exact .purge (by simpa using hidle)
  · unfold reconcilePending at hq
    split at hq
    · cases hq
    · split at hq <;> cases hq
      exact .skipped
  · unfold reconcileCompleted at hq
    dsimp only at hq
    split at hq <;> cases hq
    · exact .cleaned
    · exact .kept
  · exact .service (service_reapLoop hq)
  · exact .service (service_reapScan hq)

/-- A call that returns from a monitor's method goes on in one of the loops. -/
theorem resumes_of_frameBlock {k : Frame} {res : MethodResult} {q : CallerPc}
    (h : (s.frameBlock e k res).2 = .goto q) : q.resumes = true := by
  have hreturn : ∀ {caller r}, deleteReturn caller r = .goto q → q.resumes = true := by
    intro caller r hr
    obtain ⟨rest, -, rfl⟩ := eq_of_deleteReturn hr
    rfl
  revert h
  fun_cases frameBlock s e k res
  all_goals intro h
  all_goals first | (cases h; done) | exact hreturn h | (cases h; rfl) | skip
  · next username caller =>
    rcases hσ : (s.records e).state with _ | σ
    · rw [deleteProceed_of_none hσ] at h
      exact hreturn h
    · rw [deleteProceed_of_some hσ] at h
      cases h
  · unfold deleteFinish at h
    dsimp only at h
    split at h <;> exact hreturn h

/-- Only a step of call `t` moves call `t`, and a step inside a method does not leave the monitor's
methods. -/
theorem MethodMove.calls_moved {k : Frame} {p : SlotPc Request ℕ} {r : Reply} {a : ManagerState}
    (ha : MethodMove s t e k p r a) :
    ∃ pc, a.calls = moved s.calls t pc ∧ ∀ q, pc ≠ .caller q := by
  cases ha with
  | aborting => exact ⟨_, by rw [calls_inside, calls_cancelTask], by simp⟩
  | @woken o =>
    obtain ⟨p, -, hcalls⟩ := s.calls_arrive t e (.reap o) k
    exact ⟨_, hcalls, by simp⟩
  | _ => exact ⟨_, rfl, by simp⟩

/-! ### How a call comes to be at a program point -/

/-- **The ways in which call `u` can be at the point `q` after a step.** -/
inductive CallerMove (config : LabConfig) (s : ManagerState) (u : ℕ) (q : CallerPc) :
    Label → ManagerState → Prop
  | stayed {l : Label} {s' : ManagerState} : u < s.calls.size → (s.calls u).pc = .caller q →
      CallerMove config s u q l s'
  | made {c : Call} : u = s.calls.size → q = c.start →
      CallerMove config s u q (.call c) (s.begin c).tick
  | went {p : CallerPc} {r : Reply} {b : Shared × Next} : s.Turn u → (s.calls u).pc = .caller p →
      s.callBlock config p r = some b → b.2 = .goto q →
      CallerMove config s u q (.exec u r) (s.follow u b).tick
  | resumed {e : ℕ} {res : MethodResult} {k : Frame} : s.Turn u →
      (s.calls u).pc = .method e (.returned res) k → (s.frameBlock e k res).2 = .goto q →
      CallerMove config s u q (.exec u .go) (s.follow u (s.frameBlock e k res)).tick

theorem goto_of_pc {n : Next} {q : CallerPc} (h : n.pc = .caller q) : n = .goto q := by
  cases n <;> cases h
  rfl

theorem callerMove (hs : s.step config l = some s') (hu : u < s'.calls.size) {q : CallerPc}
    (hq : (s'.calls u).pc = .caller q) : CallerMove config s u q l s' := by
  -- a step of call `t` that leads to the point `pc`
  have hmoved : ∀ {t : ℕ} {pc : CallPc}, s'.calls = moved s.calls t pc →
      (u = t → pc = .caller q → CallerMove config s u q l s') → CallerMove config s u q l s' := by
    intro t pc hcalls hself
    rw [hcalls] at hu hq
    rw [pc_moved] at hq
    split at hq
    · next hut => exact hself hut hq
    · exact .stayed hu hq
  cases move_of_step hs with
  | @call c hrun =>
    simp only [calls_tick, calls_begin, Heap.size_alloc, Heap.alloc_apply] at hu hq
    split at hq
    · next heq =>
      cases hq
      exact .made heq rfl
    · exact .stayed (by omega) hq
  | block hturn hpc hb =>
    refine hmoved (calls_follow _ _ _) ?_
    rintro rfl hpc'
    exact .went hturn hpc hb (goto_of_pc hpc')
  | @acquire t e m k =>
    obtain ⟨p, -, hcalls⟩ := s.calls_arrive t e m k
    exact hmoved hcalls fun _ hpc' ↦ by cases hpc'
  | method hturn hpc ha =>
    obtain ⟨pc, hcalls, hne⟩ := (methodMove_of_eq_some ha).calls_moved
    exact hmoved hcalls fun _ hpc' ↦ absurd hpc' (hne _)
  | resume hturn hpc =>
    refine hmoved (calls_follow _ _ _) ?_
    rintro rfl hpc'
    exact .resumed hturn hpc (goto_of_pc hpc')
  | op =>
    rw [calls_tick, calls_afterOp] at hu hq
    exact .stayed hu hq
  | watch => exact .stayed hu hq

end ManagerState

end Nublado.Lab
