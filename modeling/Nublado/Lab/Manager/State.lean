import Nublado.Asyncio.Events
import Nublado.Asyncio.OperationSlot
import Nublado.Foundations.Heap
import Nublado.Lab.Models

/-!
# The lab manager's state

`ManagerState` is the lab manager together with the event loop it runs on: the objects it keeps,
every coroutine call that has been made, and every operation that has been started. Objects shared
by reference live in heaps.

## Coroutines

A coroutine call is a `CallTask`: which method was called and the program point it has reached. The
program points are the `await`s of the source, plus the points at which one method of the source
calls another. A call that has reached an `await` which has to wait is suspended; a call at any other
point is the one that is running (`running`), and nothing else runs until it suspends or ends. So
everything a call does between two suspensions is one atomic segment, although it may take several
steps here.

* `CallerPc` are the program points of `LabManager`'s own methods.
* `MethodPc` are the program points inside the methods of a user's `_LabMonitor`; the `Frame` says
  which caller is waiting for the method and where it continues.
* `OpPc` are the program points of the task that runs an operation (`_monitor_operation` and the
  coroutine it awaits), `WatchPc` those of the helper task that relays pod events.

## What is not part of the state

Kubernetes, the image service and the metrics service are the environment: what they answer is the
label of a step. `datetime.now` is `clock`, which advances with every step, so two readings are
ordered as the steps are. Reporting an exception swallows its own failures, as the client library
documents, so it may take time but does not raise. Log messages and the contents of metrics events
are left out.
-/

namespace Nublado.Lab

/-- Possible operations on a lab that could be in progress. -/
inductive LabOperation
  | spawn | delete
  deriving DecidableEq

/-- The name of an operation in messages. -/
def LabOperation.value : LabOperation → String
  | .spawn => "spawn"
  | .delete => "delete"

/-- The coroutines that operations run, with their arguments. The lab state and the event queue they
work on are those of the operation. -/
inductive CoroBody
  /-- `_spawn_lab` -/
  | spawnLab (user : GafaelfawrUser) (spec : LabSpecification) (image : RSPImage)
      (deleteFirst : Bool)
  /-- `_watch_lab_spawn`, for a lab that was found pending -/
  | watchLabSpawn
  /-- `_delete_lab` -/
  | deleteLab
  deriving DecidableEq

/-- A coroutine object: it may be closed before it has run. -/
structure Coro where
  body : CoroBody
  closed : Bool := false

/-- A requested operation on a user lab. Its event queue is the one of the user's record. -/
structure Request where
  operation : LabOperation
  /-- The coroutine that performs the operation. -/
  coro : ℕ
  /-- The lab state associated with the operation. -/
  state : ℕ
  /-- Whether the operation notifies the reaper when it is done. -/
  doneEvent : Bool
  deriving DecidableEq

/-- Why a coroutine is being unwound. A timeout cancels the coroutine from inside the task and is
turned into an exception only where the timeout is enforced. -/
inductive Thrown
  | error (x : LabException)
  | timeout
  | cancelled
  deriving DecidableEq

/-- Program points of the task that runs an operation. -/
inductive OpPc
  /-- The task has not taken its first step. -/
  | created
  | deletePod
  | deleteNamespace
  /-- Reading the first of `pending`, with the keys of the secrets read so far. -/
  | readSecret (pending : List String) (data : List (String × List String))
  | readPullSecret
  | buildLab
  | createObjects
  | waitForPodStart
  /-- Waiting for the cancelled helper task, before unwinding goes on. -/
  | joinWatch (unwinding : Option Thrown)
  | reportFailure (x : LabException)
  | publishFailure
  | publishSuccess
  | ended (r : TaskOutcome)
  deriving DecidableEq

/-- Program points of the helper task that relays pod events. -/
inductive WatchPc
  | absent
  | created
  | watching (progress : ℕ)
  | reporting
  /-- The task has ended, with an exception or without. -/
  | ended (x : Option LabException)
  deriving DecidableEq

/-- The task of an operation and its helper. -/
structure OpTask where
  pc : OpPc := .created
  watch : WatchPc := .absent
  /-- The helper has been cancelled. -/
  watchCancel : Bool := false
  /-- `CancelledError` is raised when the task next runs. -/
  throwCancel : Bool := false
  /-- The task has been cancelled from outside. -/
  cancelRequested : Bool := false
  deriving DecidableEq

/-- A lab operation in progress. -/
structure RunningOperation where
  /-- The record and monitor of the user. -/
  entry : ℕ
  operation : LabOperation
  coro : ℕ
  state : ℕ
  /-- The generation of the user's event queue that was current when the operation started. -/
  stream : ℕ
  started : ℕ
  doneEvent : Bool
  task : OpTask := {}
  /-- Whether the completion event is set. -/
  complete : Bool := false

namespace RunningOperation

instance : Inhabited RunningOperation := ⟨{
  entry := 0, operation := .delete, coro := 0, state := 0, stream := 0, started := 0
  doneEvent := false }⟩

/-- How the operation's task ended, once it has. -/
def outcome (o : RunningOperation) : Option TaskOutcome :=
  match o.task.pc with
  | .ended r => some r
  | _ => none

end RunningOperation

/-- What a coroutine of the manager asks a monitor to do. -/
abbrev Method := SlotMethod Request ℕ

/-- The monitor of one user's lab: the record of the running operation and the lock that protects
it. -/
structure Monitor where
  lock : FifoLock ℕ Method := {}
  operation : Option ℕ := none

instance : Inhabited Monitor := ⟨{}⟩

/-- Internal state for a user's lab (`_State`); its monitor has the same index. -/
structure LabRecord where
  username : String
  state : Option ℕ := none
  /-- The current generation of the user's event queue. -/
  events : ℕ
  lastModified : ℕ

instance : Inhabited LabRecord := ⟨{ username := "", events := 0, lastModified := 0 }⟩

/-- The methods of `LabManager` that run as coroutines of their own. -/
inductive Call
  | createLab (user : GafaelfawrUser) (spec : LabSpecification)
  | deleteLab (username : String)
  | reconcile
  | reapSpawners
  | stopMonitorTasks
  deriving DecidableEq

/-- The reaper's position in its loop over the map of users: the dictionary it iterates over, that
dictionary's size when the loop began, and the records still to come. -/
structure ReapLoop where
  dict : ℕ
  size : ℕ
  rest : List (String × ℕ)
  deriving DecidableEq

/-- What a `create_lab` call has determined before it looks at the existing lab. -/
structure CreateData where
  user : GafaelfawrUser
  spec : LabSpecification
  image : RSPImage
  quota : Option NotebookQuota
  resources : LabResources
  deriving DecidableEq

/-- Who called `delete_lab`: an API request, or a reconcile with these labs still to clean up. -/
inductive DeleteCaller
  | request
  | reconcile (rest : List (String × ℕ))
  deriving DecidableEq

/-- Program points of the manager's own methods. -/
inductive CallerPc
  | createStart (user : GafaelfawrUser) (spec : LabSpecification)
  /-- Waiting for the image service. -/
  | createImage (user : GafaelfawrUser) (spec : LabSpecification)
  /-- Waiting for the pod's phase; `state` is the lab state read before. -/
  | createPhase (d : CreateData) (state : ℕ)
  /-- Reporting that the phase could not be read. -/
  | createReport (d : CreateData) (state : ℕ)
  /-- `_get_lab_state_from_kubernetes` has returned `state`. -/
  | createCheck (d : CreateData) (state : Option ℕ)
  | deleteStart (username : String) (caller : DeleteCaller)
  | reconcileStart
  | reconcileList (cutoff : ℕ)
  /-- At the head of the loop over namespaces. -/
  | reconcileGather (cutoff : ℕ) (rest : List String) (observed : List (String × LabState))
  | reconcileRead (cutoff : ℕ) (username : String) (rest : List String)
      (observed : List (String × LabState))
  /-- Deleting the namespace of `username`. -/
  | reconcilePurge (cutoff : ℕ) (username : String) (rest : List String)
      (observed : List (String × LabState))
  /-- Everything has been gathered; the two passes come next. -/
  | reconcilePass (cutoff : ℕ) (observed : List (String × LabState))
  | reconcilePending (rest : List String)
  | reconcileCompleted (rest : List (String × ℕ))
  | reconcilePublish
  | reapStart
  | reapWait (since : ℕ)
  | reapWoken
  | reapScan (loop : ReapLoop)
  | reapReport (loop : ReapLoop) (entry : ℕ)
  | stopStart
  | stopScan (rest : List ℕ)
  deriving DecidableEq

/-- Where a coroutine continues when the monitor's method returns. -/
inductive Frame
  /-- `create_lab`, whose spawn of a lab with state `state` was handed to the monitor. -/
  | createStarted (state : ℕ)
  /-- `delete_lab`, which waited for somebody else's deletion. -/
  | deleteJoined (username : String) (caller : DeleteCaller)
  /-- `delete_lab`, which asked to cancel a spawn. -/
  | deleteAborted (username : String) (caller : DeleteCaller)
  /-- `delete_lab`, whose deletion was handed to the monitor. -/
  | deleteStarted (username : String) (caller : DeleteCaller)
  /-- `delete_lab`, which waited for its own deletion. -/
  | deleteAwaited (username : String) (caller : DeleteCaller)
  /-- `_monitor_pending_spawn`, with these users still to come. -/
  | pendingStarted (rest : List String)
  | reaped (loop : ReapLoop)
  | stopped (rest : List ℕ)
  deriving DecidableEq

/-- How a method of the monitor returns. -/
inductive MethodResult
  | ok
  | operationConflict
  | noOperation
  | cancelled
  /-- Any other exception. -/
  | failed (x : LabException)
  deriving DecidableEq

/-- Program points of the monitor's methods. -/
inductive MethodPc
  /-- About to ask for the lock. -/
  | acquire (m : Method)
  /-- In the lock's queue, in the critical section, or waiting for an operation. -/
  | inside (p : SlotPc Request ℕ)
  /-- About to continue in the caller. -/
  | returned (r : MethodResult)
  deriving DecidableEq

/-- The program point of a coroutine call. -/
inductive CallPc
  | caller (p : CallerPc)
  | method (entry : ℕ) (p : MethodPc) (frame : Frame)
  | finished (r : Except LabException Unit)
  deriving DecidableEq

/-- A coroutine call and the point it has reached. -/
structure CallTask where
  call : Call
  pc : CallPc

instance : Inhabited CallTask := ⟨{ call := .reconcile, pc := .finished (.ok ()) }⟩

instance : Inhabited Coro := ⟨{ body := .deleteLab }⟩

/-- The objects the manager's own methods read and write. -/
structure Shared where
  /-- Mapping of usernames to records, in insertion order. -/
  labs : List (String × ℕ) := []
  /-- The sizes of the mappings that `stop_monitor_tasks` has replaced. -/
  retired : List ℕ := []
  records : Heap LabRecord := .empty
  states : Heap LabState := .empty
  streams : Heap (Stream Event) := .empty
  coros : Heap Coro := .empty
  /-- Set when a spawn is done, to wake the reaper. -/
  spawnerDone : EventFlag := {}

/-- The lab manager and its event loop. -/
structure ManagerState extends Shared where
  clock : ℕ := 0
  monitors : ℕ → Monitor := fun _ ↦ {}
  ops : Heap RunningOperation := .empty
  calls : Heap CallTask := .empty
  /-- The call in the middle of an atomic segment, if any. -/
  running : Option ℕ := none

namespace Shared

/-- The dictionary currently in use. -/
def dict (s : Shared) : ℕ := s.retired.length

/-- The size of a dictionary: the current one, or one that was replaced. -/
def dictSize (s : Shared) (d : ℕ) : ℕ :=
  if d = s.dict then s.labs.length else s.retired.getD d 0

/-- The recorded state of a lab. -/
def recorded (s : Shared) (e : ℕ) : Option LabState := (s.records e).state.map s.states

/-- Write the status of a lab. -/
def setStatus (s : Shared) (σ : ℕ) (status : LabStatus) : Shared :=
  { s with states := s.states.modify σ fun x ↦ { x with status := status } }

/-- Change which lab a record describes. -/
def setState (s : Shared) (e : ℕ) (σ : Option ℕ) : Shared :=
  { s with records := s.records.modify e fun x ↦ { x with state := σ } }

/-- Record that the lab state was changed. -/
def touch (s : Shared) (e : ℕ) (now : ℕ) : Shared :=
  { s with records := s.records.modify e fun x ↦ { x with lastModified := now } }

/-- Put an event on a record's queue. -/
def putEvent (s : Shared) (e : ℕ) (event : Event) : Shared :=
  { s with streams := s.streams.modify (s.records e).events fun q ↦ q.put event }

/-- Clear a record's queue: its current generation ends and a new one begins. -/
def clearEvents (s : Shared) (e : ℕ) : Shared :=
  { s with
    streams := (s.streams.modify (s.records e).events Stream.close).alloc {}
    records := s.records.modify e fun x ↦ { x with events := s.streams.size } }

/-- Add a user to the mapping, with a record of their own. -/
def insertLab (s : Shared) (username : String) (state : Option ℕ) (now : ℕ) : Shared :=
  { s with
    labs := s.labs ++ [(username, s.records.size)]
    records := s.records.alloc
      { username := username, state := state, events := s.streams.size, lastModified := now }
    streams := s.streams.alloc {} }

/-- Create a lab state. -/
def allocState (s : Shared) (x : LabState) : Shared := { s with states := s.states.alloc x }

/-- Create a coroutine object. -/
def allocCoro (s : Shared) (body : CoroBody) : Shared :=
  { s with coros := s.coros.alloc { body := body } }

end Shared

namespace ManagerState

/-- The manager at startup. -/
def initial : ManagerState := {}

/-- The operation in progress on a lab, as `in_progress` reports it. -/
def inProgress (s : ManagerState) (e : ℕ) : Option LabOperation :=
  (s.monitors e).operation.map fun o ↦ (s.ops o).operation

/-- Whether the lab state has been modified since the given time. -/
def modifiedSince (s : ManagerState) (e : ℕ) (date : ℕ) : Bool :=
  (s.inProgress e).isSome || date < (s.records e).lastModified

/-- Change a user's monitor. -/
def setMonitor (s : ManagerState) (e : ℕ) (f : Monitor → Monitor) : ManagerState :=
  { s with monitors := Function.update s.monitors e (f (s.monitors e)) }

/-- Move a call to another program point. -/
def setPc (s : ManagerState) (t : ℕ) (pc : CallPc) : ManagerState :=
  { s with calls := s.calls.modify t fun c ↦ { c with pc := pc } }

end ManagerState

end Nublado.Lab
