import Mathlib.Data.List.Sort
import Nublado.Lab.Manager.Monitor

/-!
# The operations

The task that runs an operation: `_monitor_operation` and the coroutine it awaits, which is
`_spawn_lab`, `_delete_lab` or `_watch_lab_spawn`. A step of the task runs from one `await` to the
next. It touches only the task itself, the operation's lab state and the user's event queue, so it is
written as a function on those three (`OpFrame`), and `execOp` applies the result to the manager.

## How a coroutine is unwound

Three things can end an `await` other than its result: an exception of the awaited call, a timeout
and a cancellation. Both of the latter raise `CancelledError` inside the coroutine; the timeout is
turned into `ControllerTimeoutError` where it is enforced, unless the task was cancelled from outside
as well. `_watch_lab_spawn` holds all three up in its `finally` block until its helper task has ended,
and suppresses a cancellation that arrives while it waits there.
-/

namespace Nublado.Lab

/-- The environment's part in a step of an operation's task. -/
inductive OpReply
  /-- The task takes its first step, or is woken by its helper. -/
  | go
  /-- The timeout has expired before the task took its first step. -/
  | expired
  /-- The awaited call has returned. -/
  | done
  /-- The awaited secret, by the keys it has. -/
  | secret (keys : List String)
  /-- The awaited call has raised an exception. -/
  | failed (x : LabException)
  /-- The timeout has expired. -/
  | timeout
  deriving DecidableEq

/-- The environment's part in a step of the helper that relays pod events. -/
inductive WatchReply
  | go
  | podEvent (message : String)
  | stopped
  | kubernetesError
  | failed (x : LabException)
  | reported
  deriving DecidableEq

/-- What the task of an operation works with. -/
structure OpContext where
  config : LabConfig
  username : String
  operation : LabOperation
  coro : Coro

/-- What a step of the task can change: the task, the lab state and what is put on the queue. -/
structure OpFrame where
  task : OpTask
  state : LabState
  events : List Event := []

namespace OpContext

variable (c : OpContext)

/-- The operation's timeout, by name. -/
def timeoutName : String :=
  match c.coro.body with
  | .spawnLab .. => "Lab spawn"
  | .watchLabSpawn => "In-progress lab spawn"
  | .deleteLab => "Delete lab"

/-- The progress at the start and at the end of `_delete_lab`. -/
def deleteProgress : ℕ × ℕ :=
  match c.coro.body with
  | .spawnLab .. => (5, 20)
  | _ => (25, 100)

end OpContext

namespace OpFrame

variable (c : OpContext) (f : OpFrame)

/-- Move the task to another program point. -/
def goto (pc : OpPc) : OpFrame := { f with task := { f.task with pc := pc } }

/-- Put an informational event on the queue. -/
def info (message : String) (progress : ℕ) : OpFrame :=
  { f with events := f.events ++ [{ type := .info, message := message, progress := some progress }] }

/-- Put an event without progress on the queue. -/
def put (type : EventType) (message : String) : OpFrame :=
  { f with events := f.events ++ [{ type := type, message := message }] }

/-- Write the lab's status. -/
def setStatus (status : LabStatus) : OpFrame := { f with state := { f.state with status := status } }

/-! ### Leaving the coroutine -/

/-- The coroutine raises: where the timeout is enforced, timeouts become `ControllerTimeoutError`,
and every exception other than a cancellation is reported. -/
def unwind : Thrown → OpFrame
  | .error (.controllerTimeout _) => f.goto (.reportFailure (.controllerTimeout c.timeoutName))
  | .error x => f.goto (.reportFailure x)
  | .timeout =>
    if f.task.cancelRequested then f.goto (.ended .cancelled)
    else f.goto (.reportFailure (.controllerTimeout c.timeoutName))
  | .cancelled => f.goto (.ended .cancelled)

/-- The coroutine returns: a successful spawn is published. -/
def succeed : OpFrame :=
  match c.operation with
  | .spawn => f.goto .publishSuccess
  | .delete => f.goto (.ended .returned)

/-- The failure has been reported: it becomes visible to the user. -/
def recordFailure (x : LabException) : OpFrame :=
  let f := ((f.put .error x.text).put .failed ("Lab " ++ c.operation.value ++ " failed")).setStatus
    .failed
  match c.operation with
  | .spawn => f.goto .publishFailure
  | .delete => f.goto (.ended .returned)

/-! ### `_watch_lab_spawn` -/

/-- Start the helper and wait for the pod. -/
def beginWatch : OpFrame :=
  { f with task := { f.task with pc := .waitForPodStart, watch := .created, watchCancel := false } }

/-- The pod has started. -/
def podStarted : OpFrame :=
  ((f.setStatus .running).put .complete ("Lab Kubernetes pod started for " ++ c.username)).succeed c

/-- The helper has ended, or waiting for it was cancelled, which is suppressed: go on unwinding. -/
def afterJoin : Option Thrown → OpFrame
  | none => f.podStarted c
  | some x => f.unwind c x

/-- The helper has ended: its own exception takes the place of the one being unwound. -/
def joined (unwinding : Option Thrown) : OpFrame :=
  match f.task.watch with
  | .ended (some x) => f.unwind c (.error x)
  | _ => f.afterJoin c unwinding

/-- The `finally` block: cancel the helper and wait for it. -/
def beginJoin (unwinding : Option Thrown) : OpFrame :=
  match f.task.watch with
  | .ended _ => f.joined c unwinding
  | _ => { f with task := { f.task with pc := .joinWatch unwinding, watchCancel := true } }

/-! ### `_spawn_lab` -/

/-- Everything needed is known: the lab counts as pending from here on. -/
def beginBuild : OpFrame := (f.setStatus .pending).goto .buildLab

/-- Collect the data of the lab secret. -/
def secretData (data : List (String × List String)) :
    List LabSecret → List String → Except LabException (List String)
  | [], keys => .ok keys
  | x :: rest, keys =>
    if x.secretKey ∉ (data.lookup x.secretName).getD [] then .error (.missingSecret x.secretName)
    else if x.secretKey ∈ keys then
      .error (.runtimeError ("Duplicate secret key " ++ x.secretKey))
    else secretData data rest (keys ++ [x.secretKey])

/-- All secrets have been read. -/
def afterSecrets (data : List (String × List String)) : OpFrame :=
  match secretData data c.config.secrets [] with
  | .error x => f.unwind c (.error x)
  | .ok _ =>
    match c.config.pullSecret with
    | some _ => f.goto .readPullSecret
    | none => f.beginBuild

/-- Read the secrets in alphabetical order. -/
def gatherSecrets : OpFrame :=
  match ((c.config.secrets.map LabSecret.secretName).dedup.insertionSort (· ≤ ·)) with
  | [] => f.afterSecrets c []
  | names => f.goto (.readSecret names [])

/-- The objects have been built: the environment must say where the lab will be. -/
def afterBuild (spec : LabSpecification) : OpFrame :=
  match c.config.buildInternalUrl c.username spec.env with
  | some _ => f.goto .createObjects
  | none => f.unwind c (.error (.keyError "JUPYTERHUB_SERVICE_PREFIX"))

/-- The objects have been created: the lab has its URL. -/
def afterCreate (spec : LabSpecification) : OpFrame :=
  let f := f.info "Created Kubernetes objects for user lab" 30
  let url := c.config.buildInternalUrl c.username spec.env
  { f with state := { f.state with internalUrl := url } }.beginWatch

/-! ### `_delete_lab` -/

/-- Start shutting the lab down. -/
def beginDelete : OpFrame :=
  (f.info "Shutting down Kubernetes pod" c.deleteProgress.1).goto .deletePod

/-- The pod is gone. -/
def afterPod : OpFrame :=
  (f.info "Deleting user namespace"
    (c.deleteProgress.1 + (c.deleteProgress.2 - c.deleteProgress.1) / 2)).goto .deleteNamespace

/-- The namespace is gone. -/
def afterNamespace : OpFrame :=
  let f := (f.info ("Lab for " ++ c.username ++ " deleted") c.deleteProgress.2).setStatus .terminated
  match c.coro.body with
  | .spawnLab .. => f.gatherSecrets c
  | _ => f.succeed c

/-- The first step of the coroutine. -/
def beginBody : OpFrame :=
  match c.coro.body with
  | .spawnLab _ _ _ deleteFirst =>
    let f := f.info ("Starting lab creation for " ++ c.username) 1
    if deleteFirst then
      (f.info ("Deleting existing failed lab for " ++ c.username) 2).beginDelete c
    else f.gatherSecrets c
  | .watchLabSpawn => f.beginWatch
  | .deleteLab => f.beginDelete c

/-! ### Steps -/

/-- The task runs after a cancellation. Before its first step nothing of it runs at all; while it
waits for its helper the cancellation is suppressed. -/
def cancelled : Option OpFrame :=
  let f := { f with task := { f.task with throwCancel := false } }
  match f.task.pc with
  | .ended _ => none
  | .waitForPodStart => some (f.beginJoin c (some .cancelled))
  | .joinWatch unwinding => some (f.afterJoin c unwinding)
  | _ => some (f.goto (.ended .cancelled))

/-- The task runs with an answer to what it was waiting for. -/
def resumed (r : OpReply) : Option OpFrame :=
  match f.task.pc, r with
  | .created, .go =>
    if c.coro.closed then
      some (f.unwind c (.error (.runtimeError "cannot reuse already awaited coroutine")))
    else some (f.beginBody c)
  | .created, .expired => some (f.unwind c .timeout)
  | .waitForPodStart, .done => some (f.beginJoin c none)
  | .waitForPodStart, .failed x => some (f.beginJoin c (some (.error x)))
  | .waitForPodStart, .timeout => some (f.beginJoin c (some .timeout))
  | .joinWatch unwinding, .go =>
    match f.task.watch with
    | .ended _ => some (f.joined c unwinding)
    | _ => none
  | .deletePod, .done => some (f.afterPod c)
  | .deleteNamespace, .done => some (f.afterNamespace c)
  | .readSecret (n :: rest) data, .secret keys =>
    match rest with
    | [] => some (f.afterSecrets c (data ++ [(n, keys)]))
    | _ :: _ => some (f.goto (.readSecret rest (data ++ [(n, keys)])))
  | .readPullSecret, .secret _ => some f.beginBuild
  | .buildLab, .done =>
    match c.coro.body with
    | .spawnLab _ spec _ _ => some (f.afterBuild c spec)
    | _ => none
  | .createObjects, .done =>
    match c.coro.body with
    | .spawnLab _ spec _ _ => some (f.afterCreate c spec)
    | _ => none
  | .reportFailure x, .done => some (f.recordFailure c x)
  | .publishFailure, .done | .publishSuccess, .done => some (f.goto (.ended .returned))
  | .publishFailure, .failed _ | .publishSuccess, .failed _ => some (f.goto (.ended .raised))
  | .deletePod, .failed x | .deleteNamespace, .failed x | .readSecret _ _, .failed x
  | .readPullSecret, .failed x | .buildLab, .failed x | .createObjects, .failed x =>
    some (f.unwind c (.error x))
  | .deletePod, .timeout | .deleteNamespace, .timeout | .readSecret _ _, .timeout
  | .readPullSecret, .timeout | .buildLab, .timeout | .createObjects, .timeout =>
    some (f.unwind c .timeout)
  | _, _ => none

/-- One step of the task. -/
def opBlock (r : OpReply) : Option OpFrame :=
  if f.task.throwCancel then f.cancelled c else f.resumed c r

/-- One step of the helper. Progress moves a third of the way towards 75% with each event. -/
def watchBlock (r : WatchReply) : Option OpFrame :=
  let next (w : WatchPc) : OpFrame := { f with task := { f.task with watch := w } }
  match f.task.watch, r with
  | .absent, _ | .ended _, _ => none
  | .created, .go => if f.task.watchCancel then some (next (.ended none)) else some (next (.watching 35))
  | .watching progress, r =>
    if f.task.watchCancel then some (next (.ended none))
    else match r with
      | .podEvent message =>
        some ((next (.watching (progress + (75 - progress) / 3))).info message progress)
      | .stopped => some (next (.ended none))
      | .kubernetesError => some (next .reporting)
      | .failed x => some (next (.ended (some x)))
      | _ => none
  | .reporting, .reported => some (next (.ended none))
  | .reporting, .go => if f.task.watchCancel then some (next (.ended none)) else none
  | _, _ => none

end OpFrame

namespace ManagerState

variable (config : LabConfig) (s : ManagerState) (o : ℕ)

/-- The context of an operation. -/
def opContext : OpContext where
  config := config
  username := (s.records (s.ops o).entry).username
  operation := (s.ops o).operation
  coro := s.coros (s.ops o).coro

/-- The part of the manager a step of the operation can change. -/
def opFrame : OpFrame where
  task := (s.ops o).task
  state := s.states (s.ops o).state

/-- Apply a step of the operation to the manager. -/
def applyFrame (f : OpFrame) : ManagerState :=
  { s with
    ops := s.ops.modify o fun x ↦ { x with task := f.task }
    states := s.states.modify (s.ops o).state fun _ ↦ f.state
    streams := s.streams.modify (s.records (s.ops o).entry).events fun q ↦
      { q with contents := q.contents ++ f.events } }

/-- The `finally` block of `_monitor_operation`: close the queue, signal completion of the operation
on record and notify the reaper. -/
def finalize : ManagerState :=
  { s with
    streams := s.streams.modify (s.records (s.ops o).entry).events Stream.close
    ops := match (s.monitors (s.ops o).entry).operation with
      | some o' => s.ops.modify o' fun x ↦ { x with complete := true }
      | none => s.ops
    spawnerDone := if (s.ops o).doneEvent then s.spawnerDone.set else s.spawnerDone }

/-- One step of the task of operation `o`. A task that is cancelled before its first step ends without
having entered its `try` block. -/
def execOp (r : OpReply) : Option ManagerState :=
  ((s.opFrame o).opBlock (s.opContext config o) r).map fun f ↦
    if f.task.ended && !(s.ops o).task.neverRan then (s.applyFrame o f).finalize o
    else s.applyFrame o f

/-- One step of the helper of operation `o`. -/
def execWatch (r : WatchReply) : Option ManagerState :=
  ((s.opFrame o).watchBlock r).map (s.applyFrame o)

end ManagerState

end Nublado.Lab
