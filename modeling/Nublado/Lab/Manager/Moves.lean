import Nublado.Lab.Manager.Step

/-!
# What a step can do

The step function is a nest of matches. This module reads it once and for all: `Move` has one
constructor for each kind of step, `MethodMove` one for each way a monitor's method can run between
two suspension points, and `move_of_step` and `methodMove_of_eq_some` say that there is nothing else.
Every invariant is proved by cases on these two, so that no later proof unfolds `step`.

## Frames

The second half says what the different kinds of step leave alone. A block of the manager's own
methods changes only `Shared` and the program point of its call; a method of a monitor never writes
lab states or the mapping of users; the task of an operation changes that operation's lab state, its
event queue and the completion of operations, and nothing else.
-/

namespace Nublado.Lab

namespace Next

/-- The program point a block leads to. -/
def pc : Next → CallPc
  | .goto p => .caller p
  | .enter e m k => .method e (.acquire m) k
  | .finish r => .finished r

/-- Whether a block ends by calling a method of a monitor. -/
def enters : Next → Bool
  | .enter .. => true
  | _ => false

theorem ne_enter {n : Next} (h : n.enters = false) (e : ℕ) (m : Method) (k : Frame) :
    n ≠ .enter e m k := by
  rintro rfl
  cases h

end Next

namespace ManagerState

variable {config : LabConfig} {s s' : ManagerState} {l : Label}

/-- Call `t` may run. -/
def Turn (s : ManagerState) (t : ℕ) : Prop :=
  (s.running = none ∨ s.running = some t) ∧ t < s.calls.size

/-- The manager after a step of the task of operation `o`. -/
def afterOp (s : ManagerState) (o : ℕ) (f : OpFrame) : ManagerState :=
  if f.task.ended && !(s.ops o).task.neverRan then (s.applyFrame o f).finalize o
  else s.applyFrame o f

/-- **The kinds of step.** -/
inductive Move (config : LabConfig) (s : ManagerState) : Label → ManagerState → Prop
  | call {c : Call} : s.running = none → Move config s (.call c) (s.begin c).tick
  /-- A block of the manager's own methods. -/
  | block {t : ℕ} {p : CallerPc} {r : Reply} {b : Shared × Next} : s.Turn t →
      (s.calls t).pc = .caller p → s.callBlock config p r = some b →
      Move config s (.exec t r) (s.follow t b).tick
  /-- A call asks for a monitor's lock. -/
  | acquire {t e : ℕ} {m : Method} {k : Frame} : s.Turn t →
      (s.calls t).pc = .method e (.acquire m) k →
      Move config s (.exec t .go) (s.arrive t e m k).tick
  /-- A step inside a monitor's method. -/
  | method {t e : ℕ} {p : SlotPc Request ℕ} {k : Frame} {r : Reply} {a : ManagerState} : s.Turn t →
      (s.calls t).pc = .method e (.inside p) k → s.methodBlock t e p k r = some a →
      Move config s (.exec t r) a.tick
  /-- A call continues after a monitor's method. -/
  | resume {t e : ℕ} {res : MethodResult} {k : Frame} : s.Turn t →
      (s.calls t).pc = .method e (.returned res) k →
      Move config s (.exec t .go) (s.follow t (s.frameBlock e k res)).tick
  /-- A step of an operation's task. -/
  | op {o : ℕ} {r : OpReply} {f : OpFrame} : s.running = none → o < s.ops.size →
      (s.opFrame o).opBlock (s.opContext config o) r = some f →
      Move config s (.op o r) (s.afterOp o f).tick
  /-- A step of an operation's helper. -/
  | watch {o : ℕ} {r : WatchReply} {f : OpFrame} : s.running = none → o < s.ops.size →
      (s.opFrame o).watchBlock r = some f → Move config s (.watch o r) (s.applyFrame o f).tick

/-- **Every step is one of the moves.** -/
theorem move_of_step (h : s.step config l = some s') : Move config s l s' := by
  cases l with
  | call c =>
    obtain ⟨hrun, rfl⟩ : s.running = none ∧ (s.begin c).tick = s' := by simpa [step] using h
    exact .call hrun
  | exec t r =>
    obtain ⟨hturn, a, ha, rfl⟩ :
        s.Turn t ∧ ∃ a, s.execCall config t r = some a ∧ a.tick = s' := by
      simpa [step, Turn] using h
    unfold execCall at ha
    split at ha
    · next p hpc =>
      obtain ⟨b, hb, rfl⟩ := Option.map_eq_some_iff.1 ha
      exact .block hturn hpc hb
    · next hpc =>
      obtain rfl := Option.some.inj ha
      exact .acquire hturn hpc
    · next hpc => exact .method hturn hpc ha
    · next hpc =>
      obtain rfl := Option.some.inj ha
      exact .resume hturn hpc
    · cases ha
  | op o r =>
    obtain ⟨⟨hrun, ho⟩, a, ha, rfl⟩ :
        (s.running = none ∧ o < s.ops.size) ∧ ∃ a, s.execOp config o r = some a ∧ a.tick = s' := by
      simpa [step] using h
    obtain ⟨f, hf, rfl⟩ := Option.map_eq_some_iff.1 ha
    exact .op hrun ho hf
  | watch o r =>
    obtain ⟨⟨hrun, ho⟩, a, ha, rfl⟩ :
        (s.running = none ∧ o < s.ops.size) ∧ ∃ a, s.execWatch o r = some a ∧ a.tick = s' := by
      simpa [step] using h
    obtain ⟨f, hf, rfl⟩ := Option.map_eq_some_iff.1 ha
    exact .watch hrun ho hf

/-! ### Inside a monitor's method -/

/-- Move on inside a monitor's method. -/
def inside (s : ManagerState) (t e : ℕ) (p : SlotPc Request ℕ) (k : Frame) (running : Option ℕ) :
    ManagerState :=
  { s.setPc t (.method e (.inside p) k) with running := running }

/-- **The ways a monitor's method can run** between two suspension points. -/
inductive MethodMove (s : ManagerState) (t e : ℕ) (k : Frame) :
    SlotPc Request ℕ → Reply → ManagerState → Prop
  /-- The head of the queue acquires the lock. -/
  | granted {m m' : Method} {ws : List (ℕ × Method)} : (s.monitors e).lock.holder = none →
      (s.monitors e).lock.waiters = (t, m) :: ws →
      MethodMove s t e k (.queued m') .go
        ((s.setMonitor e fun x ↦ { x with lock := x.lock.grant t m }).inside t e (.critical m) k
          (some t))
  /-- `monitor` finds an operation. -/
  | conflict {req : Request} {o : ℕ} : (s.monitors e).operation = some o →
      MethodMove s t e k (.critical (.monitor req)) .go
        ((s.closeCoro req).leave t e k .operationConflict)
  /-- `monitor` starts the operation. -/
  | started {req : Request} : (s.monitors e).operation = none →
      MethodMove s t e k (.critical (.monitor req)) .go ((s.startOperation e req).leave t e k .ok)
  /-- `wait` finds no operation. -/
  | absent : (s.monitors e).operation = none →
      MethodMove s t e k (.critical .wait) .go (s.leave t e k .noOperation)
  /-- `wait` finds an operation to wait for. -/
  | joined {o : ℕ} : (s.monitors e).operation = some o →
      MethodMove s t e k (.critical .wait) .go
        ((s.setMonitor e fun x ↦ { x with lock := x.lock.release }).inside t e (.awaitComplete o) k
          (if (s.ops o).complete then some t else none))
  /-- The second half of `wait` turns to the task. -/
  | collecting {o : ℕ} :
      MethodMove s t e k (.critical (.reap o)) .go
        (s.inside t e (.awaitTask (.reap o) o) k
          (if (s.ops o).task.ended then some t else none))
  /-- `cancel` finds no operation. -/
  | idle {seen : Option ℕ} : (s.monitors e).operation = none →
      MethodMove s t e k (.critical (.cancel seen)) .go (s.leave t e k .ok)
  /-- `cancel` cancels the task of the operation and turns to it. -/
  | aborting {seen : Option ℕ} {o : ℕ} : (s.monitors e).operation = some o →
      MethodMove s t e k (.critical (.cancel seen)) .go
        ((s.cancelTask o).inside t e (.awaitTask (.cancel seen) o) k
          (if (s.ops o).task.ended then some t else none))
  /-- The completion event is set. -/
  | woken {o : ℕ} : (s.ops o).complete = true →
      MethodMove s t e k (.awaitComplete o) .go (s.arrive t e (.reap o) k)
  /-- The awaited task has ended: the record is cleared. -/
  | collected {m : Method} {o : ℕ} : (s.ops o).outcome = some .returned ∨
        (s.ops o).outcome = some .cancelled ∧ (∃ seen, m = .cancel seen) →
      MethodMove s t e k (.awaitTask m o) .go ((s.clearOperation e m o).leave t e k .ok)
  /-- The awaited task has raised an exception, which is reported. -/
  | reporting {m : Method} {o : ℕ} : (s.ops o).outcome = some .raised →
      MethodMove s t e k (.awaitTask m o) .go (s.inside t e (.report m o) k none)
  /-- The second half of `wait` lets a cancellation through. -/
  | interrupted {m : Method} {o : ℕ} : (s.ops o).outcome = some .cancelled →
      (∀ seen, m ≠ .cancel seen) →
      MethodMove s t e k (.awaitTask m o) .go (s.leave t e k .cancelled)
  /-- The report is out: the record is cleared. -/
  | reported {m : Method} {o : ℕ} :
      MethodMove s t e k (.report m o) .reported ((s.clearOperation e m o).leave t e k .ok)

/-- **Every step inside a method is one of these.** -/
theorem methodMove_of_eq_some {t e : ℕ} {p : SlotPc Request ℕ} {k : Frame} {r : Reply}
    {a : ManagerState} (h : s.methodBlock t e p k r = some a) : MethodMove s t e k p r a := by
  unfold methodBlock at h
  split at h
  · split at h
    · next t' m ws hh hw =>
      split at h
      · next ht =>
        subst ht
        obtain rfl := Option.some.inj h
        exact .granted hh hw
      · cases h
    · cases h
  · split at h
    · next o ho =>
      obtain rfl := Option.some.inj h
      exact .conflict ho
    · next ho =>
      obtain rfl := Option.some.inj h
      exact .started ho
  · split at h
    · next ho =>
      obtain rfl := Option.some.inj h
      exact .absent ho
    · next o ho =>
      obtain rfl := Option.some.inj h
      exact .joined ho
  · obtain rfl := Option.some.inj h
    exact .collecting
  · split at h
    · next ho =>
      obtain rfl := Option.some.inj h
      exact .idle ho
    · next o ho =>
      obtain rfl := Option.some.inj h
      exact .aborting ho
  · split at h
    · next hc =>
      obtain rfl := Option.some.inj h
      exact .woken hc
    · cases h
  · split at h
    · cases h
    · next ho =>
      obtain rfl := Option.some.inj h
      exact .collected (Or.inl ho)
    · next ho =>
      obtain rfl := Option.some.inj h
      exact .reporting ho
    · next seen ho =>
      obtain rfl := Option.some.inj h
      exact .collected (Or.inr ⟨ho, seen, rfl⟩)
    · next ho hm =>
      obtain rfl := Option.some.inj h
      exact .interrupted ho fun seen hseen ↦ hm seen hseen
  · obtain rfl := Option.some.inj h
    exact .reported
  · cases h

/-! ### Blocks of the manager's own methods -/

/-- **The blocks that do something**: they change shared objects or call a method of a monitor. Every
other block is `quiet`. -/
inductive BlockMove (s : ManagerState) : CallerPc → Reply → Shared × Next → Prop
  | quiet {p : CallerPc} {r : Reply} {n : Next} : n.enters = false →
      BlockMove s p r (s.toShared, n)
  /-- `create_lab` sets up the record of a new user. -/
  | ensured {user : GafaelfawrUser} {spec : LabSpecification} : s.labs.lookup user.username = none →
      BlockMove s (.createStart user spec) .go
        (s.insertLab user.username none s.clock, .goto (.createImage user spec))
  /-- `create_lab` has learnt the pod's phase. -/
  | refreshed {d : CreateData} {σ : ℕ} {phase : Option PodPhase} :
      BlockMove s (.createPhase d σ) (.phase (.phase phase))
        (s.refreshState σ phase, .goto (.createCheck d (some σ)))
  /-- `create_lab` hands a spawn to the monitor. -/
  | spawning {d : CreateData} {state : Option ℕ} {e : ℕ} : s.labs.lookup d.user.username = some e →
      (s.monitors e).operation = none →
      ((s.records e).state.isSome = true → (state.any fun σ ↦ !(s.states σ).isRunning) = true) →
      BlockMove s (.createCheck d state) .go
        (s.createSpawn d e (state.any fun σ ↦ !(s.states σ).isRunning))
  /-- `delete_lab` joins a deletion. -/
  | joining {username : String} {caller : DeleteCaller} {e σ o : ℕ} :
      s.labs.lookup username = some e → (s.records e).state = some σ →
      (s.monitors e).operation = some o → (s.ops o).operation = .delete →
      BlockMove s (.deleteStart username caller) .go
        (s.toShared, .enter e .wait (.deleteJoined username caller))
  /-- `delete_lab` aborts a spawn. -/
  | aborting {username : String} {caller : DeleteCaller} {e σ o : ℕ} :
      s.labs.lookup username = some e → (s.records e).state = some σ →
      (s.monitors e).operation = some o → (s.ops o).operation = .spawn →
      BlockMove s (.deleteStart username caller) .go
        (s.toShared, .enter e (.cancel (some o)) (.deleteAborted username caller))
  /-- `delete_lab` finds no operation. -/
  | deleting {username : String} {caller : DeleteCaller} {e σ : ℕ} :
      s.labs.lookup username = some e → (s.records e).state = some σ →
      (s.monitors e).operation = none →
      BlockMove s (.deleteStart username caller) .go (s.deleteProceed username e caller)
  /-- `reconcile` makes its two passes. -/
  | passes {cutoff : ℕ} {observed : List (String × LabState)} :
      BlockMove s (.reconcilePass cutoff observed) .go
        ((s.reconcilePasses observed cutoff).1,
          .goto (.reconcilePending ((s.reconcilePasses observed cutoff).2.insertionSort (· ≤ ·))))
  /-- `reconcile` monitors a lab it has found pending. -/
  | pending {username : String} {rest : List String} {e σ : ℕ} :
      s.labs.lookup username = some e → (s.records e).state = some σ →
      (s.monitors e).operation = none →
      BlockMove s (.reconcilePending (username :: rest)) .go
        (((s.clearEvents e).putEvent e
            { type := .info
              message := "Monitoring in-progress lab creation for " ++ username
              progress := some 1 }).allocCoro .watchLabSpawn,
          .enter e
            (.monitor { operation := .spawn, coro := s.coros.size, state := σ, doneEvent := true })
            (.pendingStarted rest))
  /-- A reaper pass begins. -/
  | reapBegins {p : CallerPc} : p = .reapWoken ∨ (∃ since, p = .reapWait since) →
      BlockMove s p .go s.reapBegin
  /-- The reaper collects an operation that has ended. -/
  | reaping {loop : ReapLoop} {username : String} {e : ℕ} {rest : List (String × ℕ)} :
      loop.rest = (username, e) :: rest →
      BlockMove s (.reapScan loop) .go (s.toShared, .enter e .wait (.reaped { loop with rest := rest }))
  /-- The reaper has reported an exception. -/
  | reapFailed {loop : ReapLoop} {e : ℕ} :
      BlockMove s (.reapReport loop e) .reported (s.reapFailed e, .goto (.reapScan loop))
  /-- `stop_monitor_tasks` replaces the mapping of users. -/
  | stopBegins : BlockMove s .stopStart .go
      ({ s.toShared with labs := [], retired := s.retired ++ [s.labs.length] },
        .goto (.stopScan (s.labs.map Prod.snd)))
  /-- `stop_monitor_tasks` cancels the next operation. -/
  | stopping {e : ℕ} {rest : List ℕ} :
      BlockMove s (.stopScan (e :: rest)) .go (s.toShared, .enter e (.cancel none) (.stopped rest))

theorem inProgress_eq_none_iff {e : ℕ} :
    s.inProgress e = none ↔ (s.monitors e).operation = none :=
  Option.map_eq_none_iff

theorem inProgress_eq_some_iff {e : ℕ} {x : LabOperation} :
    s.inProgress e = some x ↔ ∃ o, (s.monitors e).operation = some o ∧ (s.ops o).operation = x :=
  Option.map_eq_some_iff

/-- The lab `σ` of record `e` is marked as being shut down, with a fresh event queue. -/
def marked (s : ManagerState) (e σ : ℕ) : Shared :=
  let sh := (s.clearEvents e).setStatus σ .terminating
  { sh with states := sh.states.modify σ fun x ↦ { x with internalUrl := none } }

/-- `delete_lab` without an operation in progress: there is no lab, or its deletion is handed to the
monitor. -/
theorem deleteProceed_of_none {username : String} {e : ℕ} {caller : DeleteCaller}
    (h : (s.records e).state = none) :
    s.deleteProceed username e caller =
      (s.clearEvents e, deleteReturn caller (.error (unknownUser username))) := by
  simp only [deleteProceed, h]

theorem deleteProceed_of_some {username : String} {e σ : ℕ} {caller : DeleteCaller}
    (h : (s.records e).state = some σ) :
    s.deleteProceed username e caller =
      ((s.marked e σ).allocCoro .deleteLab, .enter e
        (.monitor { operation := .delete, coro := s.coros.size, state := σ, doneEvent := false })
        (.deleteStarted username caller)) := by
  simp only [deleteProceed, marked, h]

@[simp] theorem enters_deleteReturn (caller : DeleteCaller) (r : Except LabException Unit) :
    (deleteReturn caller r).enters = false := by
  unfold deleteReturn
  split <;> rfl

@[simp] theorem enters_deleteFinish (username : String) (e : ℕ) (caller : DeleteCaller) :
    (s.deleteFinish username e caller).2.enters = false := by
  unfold deleteFinish
  dsimp only
  split <;> exact enters_deleteReturn _ _

theorem enters_readLabState (d : CreateData) : (s.readLabState d).enters = false := by
  unfold readLabState
  split <;> rfl

theorem enters_reapLoop (sh : Shared) : (reapLoop sh).enters = false := by
  unfold reapLoop
  split <;> rfl

theorem enters_reconcileCompleted (username : String) (e : ℕ) (rest : List (String × ℕ)) :
    (s.reconcileCompleted username e rest).enters = false := by
  unfold reconcileCompleted
  split <;> rfl

theorem blockMove_createStart (user : GafaelfawrUser) (spec : LabSpecification) :
    BlockMove s (.createStart user spec) .go
      (s.ensureRecord user.username, .goto (.createImage user spec)) := by
  unfold ensureRecord
  split
  · exact .quiet rfl
  · next hnone => exact .ensured hnone

theorem blockMove_createCheck (d : CreateData) (state : Option ℕ) :
    BlockMove s (.createCheck d state) .go (s.createCheck d state) := by
  unfold createCheck
  dsimp only
  split
  · exact .quiet rfl
  · next e he =>
    split
    · exact .quiet rfl
    · next hnone =>
      split
      · exact .quiet rfl
      · next hcheck =>
        refine .spawning he (inProgress_eq_none_iff.1 hnone) fun hsome ↦ ?_
        simpa [hsome] using hcheck

theorem blockMove_deleteStart (username : String) (caller : DeleteCaller) :
    BlockMove s (.deleteStart username caller) .go (s.deleteStart username caller) := by
  unfold deleteStart
  split
  · exact .quiet (enters_deleteReturn _ _)
  · next e he =>
    split
    · exact .quiet (enters_deleteReturn _ _)
    · next hσ hop =>
      obtain ⟨o, ho, hdelete⟩ := inProgress_eq_some_iff.1 hop
      exact .joining he hσ ho hdelete
    · next hσ hop =>
      obtain ⟨o, ho, hspawn⟩ := inProgress_eq_some_iff.1 hop
      rw [ho]
      exact .aborting he hσ ho hspawn
    · next hσ hop => exact .deleting he hσ (inProgress_eq_none_iff.1 hop)

theorem blockMove_reconcilePending (username : String) (rest : List String) :
    BlockMove s (.reconcilePending (username :: rest)) .go (s.reconcilePending username rest) := by
  unfold reconcilePending
  split
  · exact .quiet rfl
  · next e he =>
    split
    · next hσ hop => exact .pending he hσ (inProgress_eq_none_iff.1 hop)
    · exact .quiet rfl

theorem blockMove_reapScan (loop : ReapLoop) :
    BlockMove s (.reapScan loop) .go (s.toShared, s.reapScan loop) := by
  unfold reapScan
  split
  · exact .quiet rfl
  · split
    · exact .quiet (enters_reapLoop _)
    · next hrest =>
      split
      · exact .reaping hrest
      · exact .quiet rfl

/-- **Every block is one of these.** -/
theorem blockMove_of_eq_some {p : CallerPc} {r : Reply} {b : Shared × Next}
    (h : s.callBlock config p r = some b) : BlockMove s p r b := by
  revert h
  fun_cases callBlock config s p r
  all_goals intro h
  all_goals first | (cases h; done) | obtain rfl := Option.some.inj h
  -- whatever is not decided by further branches is read off
  all_goals first
    | exact .quiet rfl | exact .refreshed | exact .passes | exact .reapFailed | exact .stopBegins
    | exact .stopping | skip
  · exact blockMove_createStart _ _
  · exact .quiet (enters_readLabState _)
  · exact blockMove_createCheck _ _
  · exact blockMove_deleteStart _ _
  · exact blockMove_reconcilePending _ _
  · exact .quiet (enters_reconcileCompleted _ _ _)
  · exact .quiet (enters_reapLoop _)
  · exact .reapBegins (Or.inr ⟨_, rfl⟩)
  · exact .reapBegins (Or.inl rfl)
  · exact blockMove_reapScan _

/-- **The returns from a monitor's method that do something.** -/
inductive FrameMove (s : ManagerState) (e : ℕ) : Frame → MethodResult → Shared × Next → Prop
  | quiet {k : Frame} {res : MethodResult} {n : Next} : n.enters = false →
      FrameMove s e k res (s.toShared, n)
  /-- `create_lab` has started its spawn and records the new lab. -/
  | recorded {σ : ℕ} : FrameMove s e (.createStarted σ) .ok (s.setState e (some σ), .finish (.ok ()))
  /-- `delete_lab` goes on after a cancellation. -/
  | aborted {username : String} {caller : DeleteCaller} :
      FrameMove s e (.deleteAborted username caller) .ok (s.deleteProceed username e caller)
  /-- `delete_lab` has started its deletion and waits for it. -/
  | started {username : String} {caller : DeleteCaller} :
      FrameMove s e (.deleteStarted username caller) .ok
        (s.toShared, .enter e .wait (.deleteAwaited username caller))
  /-- `delete_lab` has waited for its deletion. -/
  | finished {username : String} {caller : DeleteCaller} :
      FrameMove s e (.deleteAwaited username caller) .ok (s.deleteFinish username e caller)
  /-- The reaper has collected an operation. -/
  | reaped {loop : ReapLoop} {res : MethodResult} {n : Next} : n.enters = false →
      FrameMove s e (.reaped loop) res (s.touch e s.clock, n)

/-- **Every return from a monitor's method is one of these.** -/
theorem frameMove (s : ManagerState) (e : ℕ) (k : Frame) (res : MethodResult) :
    FrameMove s e k res (s.frameBlock e k res) := by
  fun_cases frameBlock s e k res
  all_goals first
    | exact .quiet rfl | exact .quiet (enters_deleteReturn _ _) | exact .recorded | exact .aborted
    | exact .started | exact .finished | exact .reaped rfl

/-! ### Frames -/

section Frames

variable (s) (t e o : ℕ)

@[simp] theorem toShared_tick : s.tick.toShared = s.toShared := rfl
@[simp] theorem monitors_tick : s.tick.monitors = s.monitors := rfl
@[simp] theorem ops_tick : s.tick.ops = s.ops := rfl
@[simp] theorem calls_tick : s.tick.calls = s.calls := rfl
@[simp] theorem running_tick : s.tick.running = s.running := rfl

@[simp] theorem toShared_begin (c : Call) : (s.begin c).toShared = s.toShared := rfl
@[simp] theorem monitors_begin (c : Call) : (s.begin c).monitors = s.monitors := rfl
@[simp] theorem ops_begin (c : Call) : (s.begin c).ops = s.ops := rfl
@[simp] theorem running_begin (c : Call) : (s.begin c).running = s.running := rfl
@[simp] theorem calls_begin (c : Call) :
    (s.begin c).calls = s.calls.alloc { call := c, pc := .caller c.start } := rfl

/-- Move call `t` to the program point `pc`. -/
def moved (calls : Heap CallTask) (t : ℕ) (pc : CallPc) : Heap CallTask :=
  calls.modify t fun c ↦ { c with pc := pc }

@[simp] theorem size_moved (calls : Heap CallTask) (pc : CallPc) :
    (moved calls t pc).size = calls.size := rfl

@[simp, grind =] theorem pc_moved (calls : Heap CallTask) (u : ℕ) (pc : CallPc) :
    (moved calls t pc u).pc = if u = t then pc else (calls u).pc := by
  rw [moved, Heap.modify_apply]
  split <;> rfl

@[simp] theorem call_moved (calls : Heap CallTask) (u : ℕ) (pc : CallPc) :
    (moved calls t pc u).call = (calls u).call :=
  Heap.modify_field CallTask.call calls t u _ rfl

@[simp] theorem toShared_inside (p : SlotPc Request ℕ) (k : Frame) (r : Option ℕ) :
    (s.inside t e p k r).toShared = s.toShared := rfl
@[simp] theorem monitors_inside (p : SlotPc Request ℕ) (k : Frame) (r : Option ℕ) :
    (s.inside t e p k r).monitors = s.monitors := rfl
@[simp] theorem ops_inside (p : SlotPc Request ℕ) (k : Frame) (r : Option ℕ) :
    (s.inside t e p k r).ops = s.ops := rfl
@[simp] theorem running_inside (p : SlotPc Request ℕ) (k : Frame) (r : Option ℕ) :
    (s.inside t e p k r).running = r := rfl
@[simp] theorem calls_inside (p : SlotPc Request ℕ) (k : Frame) (r : Option ℕ) :
    (s.inside t e p k r).calls = moved s.calls t (.method e (.inside p) k) := rfl

@[simp] theorem toShared_setMonitor (f : Monitor → Monitor) :
    (s.setMonitor e f).toShared = s.toShared := rfl
@[simp] theorem ops_setMonitor (f : Monitor → Monitor) : (s.setMonitor e f).ops = s.ops := rfl
@[simp] theorem calls_setMonitor (f : Monitor → Monitor) : (s.setMonitor e f).calls = s.calls := rfl
@[simp] theorem running_setMonitor (f : Monitor → Monitor) :
    (s.setMonitor e f).running = s.running := rfl
@[simp, grind =] theorem monitors_setMonitor (f : Monitor → Monitor) (e' : ℕ) :
    (s.setMonitor e f).monitors e' = if e' = e then f (s.monitors e) else s.monitors e' :=
  Function.update_apply _ _ _ _

@[simp] theorem toShared_leave (k : Frame) (r : MethodResult) :
    (s.leave t e k r).toShared = s.toShared := rfl
@[simp] theorem ops_leave (k : Frame) (r : MethodResult) : (s.leave t e k r).ops = s.ops := rfl
@[simp] theorem running_leave (k : Frame) (r : MethodResult) :
    (s.leave t e k r).running = some t := rfl
@[simp] theorem calls_leave (k : Frame) (r : MethodResult) :
    (s.leave t e k r).calls = moved s.calls t (.method e (.returned r) k) := rfl
@[simp, grind =] theorem monitors_leave (k : Frame) (r : MethodResult) (e' : ℕ) :
    (s.leave t e k r).monitors e' =
      if e' = e then { s.monitors e with lock := (s.monitors e).lock.release }
      else s.monitors e' :=
  Function.update_apply _ _ _ _

@[simp] theorem toShared_arrive (m : Method) (k : Frame) :
    (s.arrive t e m k).toShared = s.toShared := by
  unfold arrive
  split <;> rfl
@[simp] theorem ops_arrive (m : Method) (k : Frame) : (s.arrive t e m k).ops = s.ops := by
  unfold arrive
  split <;> rfl

/-- Where asking for the lock leads. -/
theorem arrive_of_free {m : Method} {k : Frame} (h : (s.monitors e).lock.free = true) :
    s.arrive t e m k =
      (s.setMonitor e fun x ↦ { x with lock := x.lock.take t m }).inside t e (.critical m) k
        (some t) :=
  if_pos h

theorem arrive_of_not_free {m : Method} {k : Frame} (h : (s.monitors e).lock.free = false) :
    s.arrive t e m k =
      (s.setMonitor e fun x ↦ { x with lock := x.lock.enqueue t m }).inside t e (.queued m) k
        none :=
  if_neg (by simp [h])

/-- A call that asks for the lock is in a method for that purpose. -/
theorem calls_arrive (m : Method) (k : Frame) :
    ∃ p : SlotPc Request ℕ, p.purpose = m ∧
      (s.arrive t e m k).calls = moved s.calls t (.method e (.inside p) k) := by
  rcases hfree : (s.monitors e).lock.free with _ | _
  · exact ⟨.queued m, rfl, by rw [arrive_of_not_free s t e hfree]; rfl⟩
  · exact ⟨.critical m, rfl, by rw [arrive_of_free s t e hfree]; rfl⟩

@[simp] theorem monitors_closeCoro (req : Request) : (s.closeCoro req).monitors = s.monitors := rfl
@[simp] theorem ops_closeCoro (req : Request) : (s.closeCoro req).ops = s.ops := rfl
@[simp] theorem calls_closeCoro (req : Request) : (s.closeCoro req).calls = s.calls := rfl

@[simp] theorem toShared_startOperation (req : Request) :
    (s.startOperation e req).toShared = s.toShared := rfl
@[simp] theorem calls_startOperation (req : Request) :
    (s.startOperation e req).calls = s.calls := rfl
@[simp, grind =] theorem monitors_startOperation (req : Request) (e' : ℕ) :
    (s.startOperation e req).monitors e' =
      if e' = e then { s.monitors e with operation := some s.ops.size } else s.monitors e' :=
  Function.update_apply _ _ _ _
@[simp] theorem ops_startOperation (req : Request) :
    (s.startOperation e req).ops = s.ops.alloc
      { entry := e, operation := req.operation, coro := req.coro, state := req.state
        stream := (s.records e).events, started := s.clock, doneEvent := req.doneEvent } := rfl

@[simp] theorem toShared_clearOperation (m : Method) :
    (s.clearOperation e m o).toShared = s.toShared := rfl
@[simp] theorem ops_clearOperation (m : Method) : (s.clearOperation e m o).ops = s.ops := rfl
@[simp] theorem calls_clearOperation (m : Method) : (s.clearOperation e m o).calls = s.calls := rfl
@[simp] theorem lock_clearOperation (m : Method) (e' : ℕ) :
    ((s.clearOperation e m o).monitors e').lock = (s.monitors e').lock := by
  rw [clearOperation, monitors_setMonitor]
  split
  · next h => rw [h]
  · rfl

@[simp] theorem monitors_cancelTask : (s.cancelTask o).monitors = s.monitors := by
  unfold cancelTask
  split <;> rfl
@[simp] theorem calls_cancelTask : (s.cancelTask o).calls = s.calls := by
  unfold cancelTask
  split <;> rfl
@[simp] theorem size_ops_cancelTask : (s.cancelTask o).ops.size = s.ops.size := by
  unfold cancelTask
  split <;> rfl

/-- A cancelled task is still where it was, and so is everything else about its operation. -/
theorem cancelTask_field {β : Type} (π : RunningOperation → β)
    (hπ : ∀ x : RunningOperation, π { x with task := x.task.cancel } = π x) (o' : ℕ) :
    π ((s.cancelTask o).ops o') = π (s.ops o') := by
  unfold cancelTask
  split
  · rfl
  · exact Heap.modify_field π s.ops o o' (fun x ↦ { x with task := x.task.cancel }) (hπ _)

theorem ops_cancelTask_of_ne {o' : ℕ} (h : o' ≠ o) : (s.cancelTask o).ops o' = s.ops o' := by
  unfold cancelTask
  split
  · rfl
  · exact Heap.modify_of_ne s.ops (fun x ↦ { x with task := x.task.cancel }) h

@[simp] theorem outcome_cancelTask (o' : ℕ) :
    ((s.cancelTask o).ops o').outcome = (s.ops o').outcome := by
  refine s.cancelTask_field o RunningOperation.outcome (fun x ↦ ?_) o'
  simp [RunningOperation.outcome]

@[simp] theorem entry_cancelTask (o' : ℕ) :
    ((s.cancelTask o).ops o').entry = (s.ops o').entry :=
  s.cancelTask_field o RunningOperation.entry (fun _ ↦ rfl) o'

@[simp] theorem operation_cancelTask (o' : ℕ) :
    ((s.cancelTask o).ops o').operation = (s.ops o').operation :=
  s.cancelTask_field o RunningOperation.operation (fun _ ↦ rfl) o'

@[simp] theorem complete_cancelTask (o' : ℕ) :
    ((s.cancelTask o).ops o').complete = (s.ops o').complete :=
  s.cancelTask_field o RunningOperation.complete (fun _ ↦ rfl) o'

end Frames

section Follow

variable (s : ManagerState) (t : ℕ) (b : Shared × Next)

@[simp] theorem toShared_follow : (s.follow t b).toShared = b.1 := by
  unfold follow
  split <;> rfl
@[simp] theorem monitors_follow : (s.follow t b).monitors = s.monitors := by
  unfold follow
  split <;> rfl
@[simp] theorem ops_follow : (s.follow t b).ops = s.ops := by
  unfold follow
  split <;> rfl
@[simp] theorem calls_follow : (s.follow t b).calls = moved s.calls t b.2.pc := by
  unfold follow
  split <;> next h => rw [h]; rfl

end Follow

section Operations

variable (s : ManagerState) (o : ℕ) (f : OpFrame)

@[simp] theorem monitors_afterOp : (s.afterOp o f).monitors = s.monitors := by
  unfold afterOp
  split <;> rfl
@[simp] theorem calls_afterOp : (s.afterOp o f).calls = s.calls := by
  unfold afterOp
  split <;> rfl
@[simp] theorem running_afterOp : (s.afterOp o f).running = s.running := by
  unfold afterOp
  split <;> rfl
@[simp] theorem labs_afterOp : (s.afterOp o f).labs = s.labs := by
  unfold afterOp
  split <;> rfl
@[simp] theorem records_afterOp : (s.afterOp o f).records = s.records := by
  unfold afterOp
  split <;> rfl
@[simp] theorem coros_afterOp : (s.afterOp o f).coros = s.coros := by
  unfold afterOp
  split <;> rfl
@[simp] theorem states_afterOp :
    (s.afterOp o f).states = s.states.modify (s.ops o).state fun _ ↦ f.state := by
  unfold afterOp
  split <;> rfl
@[simp] theorem size_ops_afterOp : (s.afterOp o f).ops.size = s.ops.size := by
  unfold afterOp finalize applyFrame
  split
  · dsimp only
    split <;> rfl
  · rfl

/-- A step of an operation changes tasks and completion events only. -/
theorem afterOp_field {β : Type} (π : RunningOperation → β)
    (htask : ∀ x k, π { x with task := k } = π x)
    (hcomplete : ∀ x c, π { x with complete := c } = π x) (o' : ℕ) :
    π ((s.afterOp o f).ops o') = π (s.ops o') := by
  have happly : π ((s.applyFrame o f).ops o') = π (s.ops o') :=
    Heap.modify_field π s.ops o o' (fun x ↦ { x with task := f.task }) (htask _ _)
  unfold afterOp
  split
  · unfold finalize
    dsimp only
    split
    · refine Eq.trans (Heap.modify_field π _ _ o' (fun x ↦ { x with complete := true }) ?_) happly
      exact hcomplete _ _
    · exact happly
  · exact happly

@[simp] theorem entry_afterOp (o' : ℕ) : ((s.afterOp o f).ops o').entry = (s.ops o').entry :=
  s.afterOp_field o f RunningOperation.entry (fun _ _ ↦ rfl) (fun _ _ ↦ rfl) o'

@[simp] theorem operation_afterOp (o' : ℕ) :
    ((s.afterOp o f).ops o').operation = (s.ops o').operation :=
  s.afterOp_field o f RunningOperation.operation (fun _ _ ↦ rfl) (fun _ _ ↦ rfl) o'

/-- The task of the operation is the one of the frame; every other task is left alone. -/
theorem task_afterOp (o' : ℕ) :
    ((s.afterOp o f).ops o').task = if o' = o then f.task else (s.ops o').task := by
  have happly : ((s.applyFrame o f).ops o').task = if o' = o then f.task else (s.ops o').task := by
    simp only [applyFrame, Heap.modify_apply]
    split <;> rfl
  unfold afterOp
  split
  · unfold finalize
    dsimp only
    split
    · refine Eq.trans (Heap.modify_field RunningOperation.task _ _ o'
        (fun x ↦ { x with complete := true }) rfl) happly
    · exact happly
  · exact happly

/-- Whether a step of operation `o` runs the `finally` block of `_monitor_operation`. -/
def finalizes (s : ManagerState) (o : ℕ) (f : OpFrame) : Bool :=
  f.task.ended && !(s.ops o).task.neverRan

/-- The `finally` block signals completion of the operation on record. -/
theorem complete_afterOp (o' : ℕ) :
    ((s.afterOp o f).ops o').complete = ((s.ops o').complete ||
      (s.finalizes o f && decide ((s.monitors (s.ops o).entry).operation = some o'))) := by
  have happly : ∀ j, ((s.applyFrame o f).ops j).complete = (s.ops j).complete := fun j ↦
    Heap.modify_field RunningOperation.complete s.ops o j (fun x ↦ { x with task := f.task }) rfl
  have hentry : ((s.applyFrame o f).ops o).entry = (s.ops o).entry :=
    Heap.modify_field RunningOperation.entry s.ops o o (fun x ↦ { x with task := f.task }) rfl
  unfold afterOp finalizes
  split
  · next h =>
    simp only [finalize, hentry, h, Bool.true_and]
    split
    · next o'' ho =>
      replace ho : (s.monitors (s.ops o).entry).operation = some o'' := ho
      rw [Heap.modify_apply, ho]
      split
      · next h' => simp [h']
      · next h' => simp [happly, Ne.symm h']
    · next ho =>
      replace ho : (s.monitors (s.ops o).entry).operation = none := ho
      simp [ho, happly]
  · next h =>
    rw [happly, Bool.eq_false_iff.2 h]
    simp

end Operations

/-! ### Tasks -/

section Tasks

variable {c : OpContext} {f f' : OpFrame}

/-- A task that has ended takes no more steps. -/
theorem opBlock_of_ended {r : OpReply} {x : TaskOutcome} (h : f.task.pc = .ended x) :
    f.opBlock c r = none := by
  simp [OpFrame.opBlock, OpFrame.cancelled, OpFrame.resumed, h]

/-- The helper does not move the task. -/
theorem pc_of_watchBlock {r : WatchReply} (h : f.watchBlock r = some f') :
    f'.task.pc = f.task.pc := by
  revert h
  fun_cases OpFrame.watchBlock f r
  all_goals
    intro h
    first | (cases h; done) | (obtain rfl := Option.some.inj h; rfl)

end Tasks

/-! ### What a step keeps -/

/-- **What was requested of an operation never changes**: a step changes tasks and completion events,
and adds operations. -/
theorem op_field_step {β : Type} (π : RunningOperation → β)
    (htask : ∀ x k, π { x with task := k } = π x)
    (hcomplete : ∀ x c, π { x with complete := c } = π x) (hs : s.step config l = some s') {o : ℕ}
    (ho : o < s.ops.size) : o < s'.ops.size ∧ π (s'.ops o) = π (s.ops o) := by
  cases move_of_step hs with
  | call => exact ⟨ho, rfl⟩
  | block => simp [ho]
  | acquire => simp [ho]
  | @method t e p k r a hturn hpc ha =>
    cases methodMove_of_eq_some ha with
    | started =>
      simp only [ops_tick, ops_leave, ops_startOperation, Heap.size_alloc, Heap.alloc_of_lt _ _ ho]
      exact ⟨by omega, trivial⟩
    | aborting => exact ⟨by simpa using ho, s.cancelTask_field _ π (fun _ ↦ htask _ _) o⟩
    | woken => simp [ho]
    | _ => exact ⟨ho, rfl⟩
  | resume => simp [ho]
  | @op o' r f hrun ho' hf =>
    exact ⟨by simpa using ho, s.afterOp_field o' f π htask hcomplete o⟩
  | @watch o' r f hrun ho' hf =>
    exact ⟨ho, Heap.modify_field π s.ops o' o (fun x ↦ { x with task := f.task }) (htask _ _)⟩

end ManagerState

end Nublado.Lab
