import Nublado.Lab.Manager.State

/-!
# The lab monitor's methods

`_LabMonitor.monitor`, `wait` and `cancel`, cut at the points where they may suspend. Each of them
asks for the monitor's lock, and `wait` asks a second time after the completion event; asking is the
same for all of them (`arrive`). A method that returns hands its result to the program point
`returned`, from which the caller continues in the same atomic segment.
-/

namespace Nublado.Lab

/-- What the environment answers at a suspension point of a coroutine call. -/
inductive PhaseReply
  /-- The pod's phase, or that there is no such pod. -/
  | phase (p : Option PodPhase)
  | kubernetesError
  | timeout
  /-- Any other exception, such as an unknown phase. -/
  | error (x : LabException)
  deriving DecidableEq

/-- The environment's part in a step of a coroutine call. -/
inductive Reply
  /-- Nothing is awaited from outside the event loop. -/
  | go
  | image (r : Except LabException RSPImage)
  | phase (r : PhaseReply)
  | reported
  | namespaces (r : Except LabException (List String))
  /-- The lab state recreated from the objects in a namespace, if they make up a lab. -/
  | labObjects (r : Except LabException (Option LabState))
  | done (r : Except LabException Unit)
  deriving DecidableEq

namespace OpTask

/-- Whether the task has ended. -/
def ended (k : OpTask) : Bool :=
  match k.pc with
  | .ended _ => true
  | _ => false

/-- How the task ended, once it has. -/
def outcome (k : OpTask) : Option TaskOutcome :=
  match k.pc with
  | .ended r => some r
  | _ => none

theorem isSome_outcome (k : OpTask) : k.outcome.isSome = k.ended := by
  unfold outcome ended
  cases k.pc <;> rfl

/-- Whether the task is cancelled before its first step. -/
def neverRan (k : OpTask) : Bool := k.throwCancel && k.pc = .created

/-- Cancel the task. A task that is waiting for its helper passes the cancellation on to the helper,
which has been cancelled already; any other task gets `CancelledError` when it next runs. -/
def cancel (k : OpTask) : OpTask :=
  match k.pc, k.watch with
  | .joinWatch _, .ended _ => { k with throwCancel := true, cancelRequested := true }
  | .joinWatch _, _ => { k with cancelRequested := true }
  | _, _ => { k with throwCancel := true, cancelRequested := true }

@[simp] theorem pc_cancel (k : OpTask) : k.cancel.pc = k.pc := by
  unfold cancel
  split <;> rfl

end OpTask

theorem RunningOperation.outcome_eq (x : RunningOperation) : x.outcome = x.task.outcome := rfl

namespace ManagerState

variable (s : ManagerState) (t e : ℕ)

/-- Ask for the lock of monitor `e`: take it if it is free, otherwise line up and suspend. -/
def arrive (m : Method) (k : Frame) : ManagerState :=
  if (s.monitors e).lock.free then
    { (s.setMonitor e fun x ↦ { x with lock := x.lock.take t m }).setPc t
        (.method e (.inside (.critical m)) k) with
      running := some t }
  else
    { (s.setMonitor e fun x ↦ { x with lock := x.lock.enqueue t m }).setPc t
        (.method e (.inside (.queued m)) k) with
      running := none }

/-- Release the lock and return to the caller. -/
def leave (k : Frame) (r : MethodResult) : ManagerState :=
  { (s.setMonitor e fun x ↦ { x with lock := x.lock.release }).setPc t
      (.method e (.returned r) k) with
    running := some t }

/-- Start an operation (`_RunningOperation.start`) and record it. -/
def startOperation (req : Request) : ManagerState :=
  { s.setMonitor e fun x ↦ { x with operation := some s.ops.size } with
    ops := s.ops.alloc
      { entry := e, operation := req.operation, coro := req.coro, state := req.state
        stream := (s.records e).events, started := s.clock, doneEvent := req.doneEvent } }

/-- Close the coroutine of a request that is turned down. -/
def closeCoro (req : Request) : ManagerState :=
  { s with coros := s.coros.modify req.coro fun c ↦ { c with closed := true } }

/-- Cancel the task of operation `o`, unless it has ended: the user's event queue is told first. -/
def cancelTask (o : ℕ) : ManagerState :=
  if (s.ops o).task.ended then s
  else
    { s with
      toShared := s.putEvent (s.ops o).entry { type := .failed, message := "Operation cancelled" }
      ops := s.ops.modify o fun x ↦ { x with task := x.task.cancel } }

/-- Clear the record after operation `o` has been collected. The second half of `wait` clears it only
if it still names `o`, so that one waiter does not clear what a later caller has recorded. -/
def clearOperation (m : Method) (o : ℕ) : ManagerState :=
  s.setMonitor e fun x ↦
    { x with operation := match m with
      | .reap _ => if x.operation = some o then none else x.operation
      | _ => none }

/-- One step of call `t` inside a method of monitor `e`. -/
def methodBlock (p : SlotPc Request ℕ) (k : Frame) (r : Reply) : Option ManagerState :=
  match p, r with
  | .queued _, .go =>
    match (s.monitors e).lock.holder, (s.monitors e).lock.waiters with
    | none, (t', m) :: _ =>
      if t' = t then
        some { (s.setMonitor e fun x ↦ { x with lock := x.lock.grant t m }).setPc t
            (.method e (.inside (.critical m)) k) with
          running := some t }
      else none
    | _, _ => none
  | .critical (.monitor req), .go =>
    match (s.monitors e).operation with
    -- the operation's coroutine will never run, so it is closed
    | some _ => some ((s.closeCoro req).leave t e k .operationConflict)
    | none => some ((s.startOperation e req).leave t e k .ok)
  | .critical .wait, .go =>
    match (s.monitors e).operation with
    | none => some (s.leave t e k .noOperation)
    | some o =>
      some { (s.setMonitor e fun x ↦ { x with lock := x.lock.release }).setPc t
          (.method e (.inside (.awaitComplete o)) k) with
        running := if (s.ops o).complete then some t else none }
  | .critical (.reap o), .go =>
    some { s.setPc t (.method e (.inside (.awaitTask (.reap o) o)) k) with
      running := if (s.ops o).task.ended then some t else none }
  | .critical (.cancel seen), .go =>
    match (s.monitors e).operation with
    | none => some (s.leave t e k .ok)
    | some o =>
      some { (s.cancelTask o).setPc t (.method e (.inside (.awaitTask (.cancel seen) o)) k) with
        running := if (s.ops o).task.ended then some t else none }
  | .awaitComplete o, .go => if (s.ops o).complete then some (s.arrive t e (.reap o) k) else none
  | .awaitTask m o, .go =>
    match (s.ops o).outcome, m with
    | none, _ => none
    | some .returned, _ => some ((s.clearOperation e m o).leave t e k .ok)
    | some .raised, _ =>
      some { s.setPc t (.method e (.inside (.report m o)) k) with running := none }
    | some .cancelled, .cancel _ => some ((s.clearOperation e m o).leave t e k .ok)
    -- `wait` does not expect a cancelled task and lets the cancellation through
    | some .cancelled, _ => some (s.leave t e k .cancelled)
  | .report m o, .reported => some ((s.clearOperation e m o).leave t e k .ok)
  | _, _ => none

end ManagerState

end Nublado.Lab
